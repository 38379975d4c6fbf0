import RustyPenguin.Heap.FreeList

/-!
# Taking blocks out of the free list and putting them back

The loops of `alloc` and `dealloc` against the operations on lists of extents: on a free list
in address order whose blocks do not touch, `alloc` does what `Extent.carve` does and `dealloc`
what `Extent.restore` does, and both return.

`alloc` forms two sums at each block it looks at. `Searchable` says that they do not wrap;
in an arena that leaves room above itself for the request they never do.
-/

set_option autoImplicit false

namespace RustyPenguin

namespace Heap

/-! ## The search for room -/

/-- The sums the search makes fit the word: at each block up to the first with room, the place
for the piece and the piece behind it lie inside the address space. -/
def Searchable (align need : Nat) : List Extent → Prop
  | [] => True
  | b :: es => roundUp align b.start + need < 2 ^ 64 ∧
      (roundUp align b.start + need ≤ b.stop ∨ Searchable align need es)

/-- An extent list below a bound is searchable for what fits above that bound. -/
theorem searchable_of_below {align need hi : Nat} (positive : 0 < align)
    (fits : hi + align + need ≤ 2 ^ 64) {es : List Extent} (below : ∀ e ∈ es, e.start < hi) :
    Searchable align need es := by
  induction es with
  | nil => trivial
  | cons b es ih =>
    have low := below b List.mem_cons_self
    have most := roundUp_lt positive b.start
    exact ⟨by omega, .inr (ih fun e later => below e (List.mem_cons_of_mem _ later))⟩

theorem Behind.snoc (front : List Extent) {b : Extent} {cur : UInt64} (start : b.start = cur.toNat)
    (nonzero : cur ≠ 0) : Behind (front ++ [b]) cur :=
  .inr ⟨front, b, rfl, start, nonzero⟩

theorem seg_snoc {mem : UInt64 → UInt64} {front : List Extent} {b : Extent} {a cur : UInt64}
    (toFront : Seg mem a front cur) (nonzero : cur ≠ 0) (start : b.start = cur.toNat)
    (len : b.len = (mem cur).toNat) : Seg mem a (front ++ [b]) (mem (cur + 8)) :=
  seg_append.mpr ⟨cur, toFront, nonzero, start, len, rfl⟩

/-- **The search takes out what `carve` takes out.** -/
theorem allocFrom_spec {h : Heap} {need align : UInt64} {k : Nat} (power : align.toNat = 2 ^ k)
    (grain : 16 ∣ align.toNat) (whole : 16 ∣ need.toNat) (back : List Extent) :
    ∀ (front : List Extent) (prev cur : UInt64) (fuel : Nat), back.length < fuel →
      Seg h.mem h.head front cur → Behind front prev → Seg h.mem cur back 0 →
      Extent.Spaced (front ++ back) → (∀ e ∈ front ++ back, Sound e) →
      Searchable align.toNat need.toNat back →
      match Extent.carve (roundUp align.toNat) need.toNat back with
      | none => h.allocFrom need align fuel prev cur = some (0, h)
      | some (p, back') => ∃ payload h', h.allocFrom need align fuel prev cur = some (payload, h') ∧
          payload.toNat = p ∧ FreeList h' (front ++ back') ∧ h'.live = h.live + need := by
  induction back with
  | nil =>
    intro front prev cur fuel enough _ _ toBack _ _ _
    obtain ⟨fuel, rfl⟩ := Nat.exists_eq_succ_of_ne_zero (Nat.ne_zero_of_lt enough)
    exact if_pos toBack
  | cons b back ih =>
    intro front prev cur fuel enough toFront behind toBack spaced sound searchable
    obtain ⟨fuel, rfl⟩ := Nat.exists_eq_succ_of_ne_zero (Nat.ne_zero_of_lt enough)
    have positive : 0 < align.toNat := power ▸ Nat.two_pow_pos k
    have bSound := sound b (List.mem_append_right _ List.mem_cons_self)
    obtain ⟨nonzero, start, len, rest⟩ := id toBack
    have payloadAt : (alignUp cur align).toNat = roundUp align.toNat b.start := by
      rw [start]
      exact toNat_alignUp power (start ▸ Nat.lt_of_le_of_lt (Nat.le_add_right _ _) searchable.1)
    have payloadStop : (alignUp cur align + need).toNat =
        roundUp align.toNat b.start + need.toNat := by
      rw [UInt64.toNat_add, payloadAt]
      exact Nat.mod_eq_of_lt searchable.1
    have curStop : (cur + h.sizeOf cur).toNat = b.stop := by
      rw [UInt64.toNat_add, sizeOf, ← len, ← start]
      exact Nat.mod_eq_of_lt bSound.2
    have test : alignUp cur align + need ≤ cur + h.sizeOf cur ↔
        roundUp align.toNat b.start + need.toNat ≤ b.stop := by
      rw [UInt64.le_iff_toNat_le, payloadStop, curStop]
    rw [Extent.carve, allocFrom_step h need align fuel prev nonzero]
    by_cases fits : roundUp align.toNat b.start + need.toNat ≤ b.stop
    · rw [if_pos fits, if_pos (test.mpr fits)]
      refine ⟨_, _, rfl, payloadAt, ?_, ?_⟩
      · rw [← payloadAt] at fits ⊢
        exact split_spec toFront behind toBack spaced sound
          (payloadAt ▸ le_roundUp positive b.start) fits
          (payloadAt ▸ Nat.dvd_trans grain (dvd_roundUp _ _)) whole
      · simp only [split, live_relink, live_leave]
    · rw [if_neg fits, if_neg fun taken => fits (test.mp taken)]
      have spaced' : Extent.Spaced ((front ++ [b]) ++ back) := by
        rw [List.append_assoc]
        exact spaced
      have sound' : ∀ e ∈ (front ++ [b]) ++ back, Sound e := by
        rw [List.append_assoc]
        exact sound
      have later := ih (front ++ [b]) cur (h.nextOf cur) fuel (Nat.lt_of_succ_lt_succ enough)
        (seg_snoc toFront nonzero start len) (Behind.snoc front start nonzero) rest spaced' sound'
        (searchable.2.resolve_left fits)
      cases carved : Extent.carve (roundUp align.toNat) need.toNat back with
      | none =>
        rw [carved] at later
        exact later
      | some taken =>
        obtain ⟨p, back'⟩ := taken
        rw [carved] at later
        obtain ⟨payload, h', answers, place, list, live⟩ := later
        rw [List.append_assoc] at list
        exact ⟨payload, h', answers, place, list, live⟩

/-! ## Putting a block back -/

/-- The search for the place of a block stops between the blocks below and those above. -/
theorem findFrom_spec (h : Heap) (ptr : UInt64) (back : List Extent) :
    ∀ (front : List Extent) (prev cur : UInt64) (fuel : Nat), back.length < fuel →
      Seg h.mem h.head front cur → Behind front prev → Seg h.mem cur back 0 →
      Extent.Spaced (front ++ back) → (∀ e ∈ front, e.start < ptr.toNat) →
      ∃ front' back' prev' cur', h.findFrom ptr fuel prev cur = some (prev', cur') ∧
        front ++ back = front' ++ back' ∧ Seg h.mem h.head front' cur' ∧ Behind front' prev' ∧
        Seg h.mem cur' back' 0 ∧ (∀ e ∈ front', e.start < ptr.toNat) ∧
        ∀ e ∈ back', ptr.toNat ≤ e.start := by
  induction back with
  | nil =>
    intro front prev cur fuel enough toFront behind toBack _ below
    obtain ⟨fuel, rfl⟩ := Nat.exists_eq_succ_of_ne_zero (Nat.ne_zero_of_lt enough)
    have ends : cur = 0 := toBack
    exact ⟨front, [], prev, cur, if_neg fun go => go.1 ends, rfl, toFront, behind, toBack, below,
      fun _ none => nomatch none⟩
  | cons b back ih =>
    intro front prev cur fuel enough toFront behind toBack spaced below
    obtain ⟨fuel, rfl⟩ := Nat.exists_eq_succ_of_ne_zero (Nat.ne_zero_of_lt enough)
    obtain ⟨nonzero, start, len, rest⟩ := id toBack
    by_cases low : b.start < ptr.toNat
    · have go : h.findFrom ptr (fuel + 1) prev cur = h.findFrom ptr fuel cur (h.nextOf cur) :=
        if_pos ⟨nonzero, UInt64.lt_iff_toNat_lt.mpr (start ▸ low)⟩
      have spaced' : Extent.Spaced ((front ++ [b]) ++ back) := by
        rw [List.append_assoc]
        exact spaced
      have below' : ∀ e ∈ front ++ [b], e.start < ptr.toNat := by
        intro e isMember
        rcases List.mem_append.mp isMember with early | last
        · exact below e early
        · rw [List.mem_singleton] at last
          exact last ▸ low
      have later := ih (front ++ [b]) cur (h.nextOf cur) fuel (Nat.lt_of_succ_lt_succ enough)
        (seg_snoc toFront nonzero start len) (Behind.snoc front start nonzero) rest spaced' below'
      rw [List.append_assoc] at later
      rw [go]
      exact later
    · have stay : h.findFrom ptr (fuel + 1) prev cur = some (prev, cur) :=
        if_neg fun go => low (start ▸ UInt64.lt_iff_toNat_lt.mp go.2)
      refine ⟨front, b :: back, prev, cur, stay, rfl, toFront, behind, toBack, below, ?_⟩
      intro e isMember
      have behindB := (List.pairwise_cons.mp (List.pairwise_append.mp spaced).2.1).1
      cases isMember with
      | head => exact Nat.not_lt.mp low
      | tail _ later =>
        have after := behindB e later
        simp only [Extent.stop] at after
        omega

/-- The last block in front given a new size and a new block behind it. -/
theorem extend_spec {h h' : Heap} {f back : List Extent} {b : Extent} {prev next : UInt64}
    (toFront : Seg h.mem h.head (f ++ [b]) next) (start : b.start = prev.toNat)
    (spaced : Extent.Spaced (f ++ [b])) (sound : ∀ e ∈ f ++ [b], Sound e)
    (same : Untouched b.start b.stop h.mem h'.mem) (sameHead : h'.head = h.head)
    (toBack : Seg h.mem (h'.mem (prev + 8)) back 0) (backSound : ∀ e ∈ back, Sound e)
    (after : ∀ e ∈ back, b.stop ≤ e.start) :
    FreeList h' (f ++ ⟨b.start, (h'.mem prev).toNat⟩ :: back) := by
  obtain ⟨m, toF, nonzero, mStart, _, _⟩ := seg_append.mp toFront
  have here : m = prev := UInt64.toNat_inj.mp (mStart.symm.trans start)
  rw [here] at toF nonzero
  rw [FreeList, sameHead]
  refine seg_append.mpr ⟨prev, ?_, nonzero, start, rfl, ?_⟩
  · refine toF.untouched same (fun e isMember => sound e (List.mem_append_left _ isMember)) ?_
    intro e isMember
    exact .inl ((List.pairwise_append.mp spaced).2.2 e isMember b List.mem_cons_self).le
  · exact toBack.untouched same backSound fun e isMember => .inr (after e isMember)

/-- A new block between those in front and those behind. -/
theorem link_spec {h : Heap} {front back : List Extent} {prev cur ptr size next : UInt64}
    (toFront : Seg h.mem h.head front cur) (behind : Behind front prev)
    (spaced : Extent.Spaced front) (sound : ∀ e ∈ front, Sound e) (nonzero : ptr ≠ 0)
    (block : Sound ⟨ptr.toNat, size.toNat⟩) (before : ∀ e ∈ front, e.stop ≤ ptr.toNat)
    (toBack : Seg h.mem next back 0) (backSound : ∀ e ∈ back, Sound e)
    (after : ∀ e ∈ back, ptr.toNat + size.toNat ≤ e.start) :
    FreeList ((h.write ptr size next).relink prev ptr)
      (front ++ ⟨ptr.toNat, size.toNat⟩ :: back) := by
  have room := block.room
  have below := block.2
  simp only [Extent.stop] at room below
  obtain ⟨same, sizeIs, nextIs⟩ := write_spec h size next
    (show ptr.toNat + 16 < 2 ^ 64 by omega)
  have front' : Seg (h.write ptr size next).mem (h.write ptr size next).head front cur :=
    toFront.untouched same sound fun e isMember => .inl (before e isMember)
  obtain ⟨linked, keeps⟩ := relink_spec ptr front' behind spaced sound
  refine seg_append.mpr ⟨ptr, linked, keeps _ _ _ ⟨nonzero, rfl, ?_, ?_⟩ ?_ ?_⟩
  · exact congrArg UInt64.toNat sizeIs.symm
  · rw [nextIs]
    refine toBack.untouched same backSound fun e isMember => .inr ?_
    have later := after e isMember
    omega
  · intro e isMember
    cases isMember with
    | head => exact block
    | tail _ later => exact backSound e later
  · intro f isFront e isMember
    cases isMember with
    | head => exact before f isFront
    | tail _ later =>
      have early := before f isFront
      have late := after e later
      omega

/-- The block in front of a place touches `e` if it ends there. -/
theorem prevAdj_iff {h : Heap} {f : List Extent} {b : Extent} {a prev cur ptr : UInt64}
    (toFront : Seg h.mem a (f ++ [b]) cur) (start : b.start = prev.toNat) (sound : Sound b) :
    prev + h.sizeOf prev = ptr ↔ b.stop = ptr.toNat := by
  obtain ⟨m, _, _, mStart, len, _⟩ := seg_append.mp toFront
  have here : m = prev := UInt64.toNat_inj.mp (mStart.symm.trans start)
  rw [here] at len
  have stops : (prev + h.sizeOf prev).toNat = b.stop := by
    rw [UInt64.toNat_add, sizeOf, ← len, ← start]
    exact Nat.mod_eq_of_lt sound.2
  rw [← UInt64.toNat_inj, stops]

/-- A block that ends where the list behind it starts is joined with its first block. -/
theorem absorb_of_adj {h : Heap} {back : List Extent} {cur stop : UInt64}
    (toBack : Seg h.mem cur back 0) (adj : cur ≠ 0 ∧ stop = cur) {e : Extent}
    (ends : e.stop = stop.toNat) :
    ∃ c cs, back = c :: cs ∧ Seg h.mem (h.nextOf cur) cs 0 ∧ c.start = e.stop ∧
      Extent.absorb e back = ⟨e.start, e.len + (h.sizeOf cur).toNat⟩ :: cs ∧
      c.len = (h.sizeOf cur).toNat := by
  cases back with
  | nil => exact absurd toBack adj.1
  | cons c cs =>
    obtain ⟨_, start, len, rest⟩ := toBack
    have touch : e.stop = c.start := by rw [ends, start, adj.2]
    refine ⟨c, cs, rfl, rest, touch.symm, ?_, len⟩
    rw [Extent.absorb, if_pos touch, len]
    rfl

theorem absorb_of_not_adj {h : Heap} {back : List Extent} {cur stop : UInt64}
    (toBack : Seg h.mem cur back 0) (apart : ¬ (cur ≠ 0 ∧ stop = cur)) {e : Extent}
    (ends : e.stop = stop.toNat) : Extent.absorb e back = e :: back := by
  cases back with
  | nil => rfl
  | cons c cs =>
    obtain ⟨nonzero, start, _, _⟩ := toBack
    refine if_neg fun touch => apart ⟨nonzero, UInt64.toNat_inj.mp ?_⟩
    rw [← ends, touch, start]

/-- **A block put between its neighbours is restored to the list.** -/
theorem insert_spec {h : Heap} {front back : List Extent} {prev cur ptr need : UInt64}
    (toFront : Seg h.mem h.head front cur) (behind : Behind front prev)
    (toBack : Seg h.mem cur back 0) (spaced : Extent.Spaced (front ++ back))
    (sound : ∀ e ∈ front ++ back, Sound e) (nonzero : ptr ≠ 0)
    (block : Sound ⟨ptr.toNat, need.toNat⟩) (before : ∀ e ∈ front, e.stop ≤ ptr.toNat)
    (after : ∀ e ∈ back, ptr.toNat + need.toNat ≤ e.start) :
    FreeList (h.insert ptr need prev cur)
      (Extent.restore ⟨ptr.toNat, need.toNat⟩ (front ++ back)) := by
  obtain ⟨frontSpaced, backSpaced, apart⟩ := List.pairwise_append.mp spaced
  have frontSound : ∀ e ∈ front, Sound e := fun e isMember =>
    sound e (List.mem_append_left _ isMember)
  have backSound : ∀ e ∈ back, Sound e := fun e isMember =>
    sound e (List.mem_append_right _ isMember)
  have positive : 0 < need.toNat := block.1.2.2
  have below : ptr.toNat + need.toNat < 2 ^ 64 := block.2
  have ptrStop : (ptr + need).toNat = ptr.toNat + need.toNat := by
    rw [UInt64.toNat_add]
    exact Nat.mod_eq_of_lt below
  by_cases prevAdj : prev ≠ 0 ∧ prev + h.sizeOf prev = ptr
  · rcases behind with ⟨_, zero⟩ | ⟨f, b, rfl, start, _⟩
    · exact absurd zero prevAdj.1
    have bSound := frontSound b (List.mem_append_right _ List.mem_cons_self)
    have bRoom := bSound.room
    have touch : b.stop = ptr.toNat := (prevAdj_iff toFront start bSound).mp prevAdj.2
    obtain ⟨m, _, _, mStart, bLen, bNext⟩ := seg_append.mp toFront
    rw [UInt64.toNat_inj.mp (mStart.symm.trans start)] at bLen bNext
    have untouching : ∀ a ∈ f, a.start < ptr.toNat ∧ a.stop ≠ ptr.toNat := by
      intro a isMember
      have early := (List.pairwise_append.mp frontSpaced).2.2 a isMember b List.mem_cons_self
      simp only [Extent.stop] at early touch ⊢
      omega
    have joined : Extent.restore ⟨ptr.toNat, need.toNat⟩ (f ++ [b] ++ back) =
        f ++ Extent.absorb ⟨b.start, b.len + need.toNat⟩ back := by
      rw [List.append_assoc, Extent.restore_append untouching]
      refine congrArg (f ++ ·) ?_
      have low : b.start < ptr.toNat := by
        simp only [Extent.stop] at touch
        omega
      exact (if_pos low).trans (if_pos touch)
    have ends : (⟨b.start, b.len + need.toNat⟩ : Extent).stop = (ptr + need).toNat := by
      simp only [Extent.stop] at touch ⊢
      omega
    have bAfter : ∀ e ∈ back, b.stop ≤ e.start := fun e isMember =>
      (apart b (List.mem_append_right _ List.mem_cons_self) e isMember).le
    rw [joined]
    by_cases curAdj : cur ≠ 0 ∧ ptr + need = cur
    · obtain ⟨c, cs, rfl, rest, cStart, absorbed, cLen⟩ := absorb_of_adj toBack curAdj ends
      have cBelow := (backSound c List.mem_cons_self).2
      have taken : h.insert ptr need prev cur =
          h.write prev (h.sizeOf prev + need + h.sizeOf cur) (h.nextOf cur) :=
        (if_pos prevAdj).trans (if_pos curAdj)
      obtain ⟨same, sizeIs, nextIs⟩ := write_spec h
        (h.sizeOf prev + need + h.sizeOf cur) (h.nextOf cur)
        (show prev.toNat + 16 < 2 ^ 64 by
          simp only [Extent.stop] at touch
          omega)
      have size : ((h.write prev (h.sizeOf prev + need + h.sizeOf cur) (h.nextOf cur)).mem
          prev).toNat = b.len + need.toNat + (h.sizeOf cur).toNat := by
        simp only [Extent.stop] at cBelow cStart touch
        rw [sizeIs, UInt64.toNat_add, UInt64.toNat_add, sizeOf, ← bLen]
        omega
      have inB : Untouched b.start b.stop h.mem _ :=
        same.mono (by omega) (by simp only [Extent.stop]; omega)
      have listed := extend_spec toFront start frontSpaced frontSound inB rfl (nextIs.symm ▸ rest)
        (fun e isMember => backSound e (List.mem_cons_of_mem _ isMember))
        fun e isMember => bAfter e (List.mem_cons_of_mem _ isMember)
      rw [size] at listed
      rw [taken, absorbed]
      exact listed
    · have taken : h.insert ptr need prev cur = h.setSize prev (h.sizeOf prev + need) :=
        (if_pos prevAdj).trans (if_neg curAdj)
      have size : ((h.setSize prev (h.sizeOf prev + need)).mem prev).toNat =
          b.len + need.toNat := by
        rw [setSize, poke_self, UInt64.toNat_add, sizeOf, ← bLen]
        simp only [Extent.stop] at touch
        omega
      have second := toNat_next (a := prev) (by
        simp only [Extent.stop] at touch
        omega)
      have nextSame : (h.setSize prev (h.sizeOf prev + need)).mem (prev + 8) = cur := by
        refine (poke_of_ne ?_ _).trans bNext
        intro eq
        have eq := congrArg UInt64.toNat eq
        omega
      have inB : Untouched b.start b.stop h.mem (h.setSize prev (h.sizeOf prev + need)).mem :=
        untouched_poke (by omega) (by simp only [Extent.stop]; omega) _
      have listed := extend_spec toFront start frontSpaced frontSound inB rfl
        (nextSame.symm ▸ toBack) backSound bAfter
      rw [size] at listed
      rw [taken, absorb_of_not_adj toBack curAdj ends]
      exact listed
  · have untouching : ∀ a ∈ front, a.start < ptr.toNat ∧ a.stop ≠ ptr.toNat := by
      intro a isMember
      have aRoom := (frontSound a isMember).room
      have early := before a isMember
      refine ⟨by simp only [Extent.stop] at early; omega, fun touch => ?_⟩
      rcases behind with ⟨rfl, _⟩ | ⟨f, b, rfl, start, prevNonzero⟩
      · cases isMember
      · have bSound := frontSound b (List.mem_append_right _ List.mem_cons_self)
        rcases List.mem_append.mp isMember with inF | isLast
        · have order := (List.pairwise_append.mp frontSpaced).2.2 a inF b List.mem_cons_self
          have bRoom := bSound.room
          have bEarly := before b (List.mem_append_right _ List.mem_cons_self)
          simp only [Extent.stop] at *
          omega
        · rw [List.mem_singleton] at isLast
          rw [isLast] at touch
          exact prevAdj ⟨prevNonzero, (prevAdj_iff toFront start bSound).mpr touch⟩
    have ends : (⟨ptr.toNat, need.toNat⟩ : Extent).stop = (ptr + need).toNat := ptrStop.symm
    have restored : Extent.restore ⟨ptr.toNat, need.toNat⟩ (front ++ back) =
        front ++ Extent.absorb ⟨ptr.toNat, need.toNat⟩ back := by
      rw [Extent.restore_append untouching]
      refine congrArg (front ++ ·) (Extent.restore_of_le fun e isMember => ?_)
      exact Nat.le_trans (Nat.le_add_right _ _) (after e isMember)
    rw [restored]
    by_cases curAdj : cur ≠ 0 ∧ ptr + need = cur
    · obtain ⟨c, cs, rfl, rest, cStart, absorbed, cLen⟩ := absorb_of_adj toBack curAdj ends
      have cSound := backSound c List.mem_cons_self
      have cBelow := cSound.2
      have taken : h.insert ptr need prev cur =
          (h.write ptr (need + h.sizeOf cur) (h.nextOf cur)).relink prev ptr :=
        (if_neg prevAdj).trans (if_pos curAdj)
      have size : (need + h.sizeOf cur).toNat = need.toNat + (h.sizeOf cur).toNat := by
        simp only [Extent.stop] at cBelow cStart
        rw [UInt64.toNat_add]
        omega
      rw [taken, absorbed, ← size]
      refine link_spec toFront behind frontSpaced frontSound nonzero ?_ before rest
        (fun e isMember => backSound e (List.mem_cons_of_mem _ isMember)) ?_
      · rw [size, ← cLen]
        refine ⟨block.1.join cSound.1, ?_⟩
        simp only [Extent.stop] at cBelow cStart ⊢
        omega
      · intro e isMember
        have later := (List.pairwise_cons.mp backSpaced).1 e isMember
        simp only [Extent.stop] at later cStart
        omega
    · have taken : h.insert ptr need prev cur = (h.write ptr need cur).relink prev ptr :=
        (if_neg prevAdj).trans (if_neg curAdj)
      rw [taken, absorb_of_not_adj toBack curAdj ends]
      exact link_spec toFront behind frontSpaced frontSound nonzero block before toBack backSound
        after

/-! ## The two operations -/

/-- The alignment a request is searched with. -/
def grain (align : Nat) : Nat := max align 16

/-- A request as the language's `Layout` admits it: a power of two that the size, rounded up to
it, does not take out of the signed range. -/
structure Layout where
  size : UInt64
  align : UInt64
  power : ∃ k, align.toNat = 2 ^ k
  fits : size.toNat + align.toNat ≤ 2 ^ 63

theorem Layout.size_lt (layout : Layout) : layout.size.toNat < 2 ^ 63 := by
  obtain ⟨k, power⟩ := layout.power
  have fits := layout.fits
  have positive := Nat.two_pow_pos k
  omega

theorem Layout.grain_spec (layout : Layout) :
    ∃ align k, align = (if layout.align < ALIGN then ALIGN else layout.align) ∧
      align.toNat = grain layout.align.toNat ∧ align.toNat = 2 ^ k ∧ 16 ∣ align.toNat := by
  obtain ⟨k, power⟩ := layout.power
  have sixteen : ALIGN.toNat = 2 ^ 4 := by decide
  by_cases small : layout.align < ALIGN
  · have low : layout.align.toNat < 16 := UInt64.lt_iff_toNat_lt.mp small
    refine ⟨ALIGN, 4, (if_pos small).symm, ?_, sixteen, by decide⟩
    rw [grain, Nat.max_eq_right (Nat.le_of_lt low)]
    exact sixteen
  · have high : 2 ^ 4 ≤ 2 ^ k := by
      rw [← sixteen, ← power]
      exact Nat.not_lt.mp fun low => small (UInt64.lt_iff_toNat_lt.mpr low)
    refine ⟨layout.align, k, (if_neg small).symm, ?_, power, ?_⟩
    · rw [grain, Nat.max_eq_left (power ▸ high)]
    · rw [power]
      exact Nat.pow_dvd_pow 2 ((Nat.pow_le_pow_iff_right (by decide)).mp high)

theorem length_lt_allSteps {free : List Extent} (spaced : Extent.Spaced free)
    (sound : ∀ e ∈ free, Sound e) : free.length < allSteps := by
  have inside : ∀ e ∈ free, 0 ≤ e.start ∧ e.stop ≤ 2 ^ 64 - 1 ∧ 0 < e.len := fun e isMember =>
    ⟨Nat.zero_le _, Nat.le_sub_one_of_lt (sound e isMember).2, (sound e isMember).1.2.2⟩
  have few := spaced.length_le inside
  rw [allSteps]
  omega

/-- **`alloc` takes out what `carve` takes out**, and answers zero when there is no room. -/
theorem alloc_spec {h : Heap} {free : List Extent} (list : h.FreeList free)
    (spaced : Extent.Spaced free) (sound : ∀ e ∈ free, Sound e) (layout : Layout)
    (searchable : Searchable (grain layout.align.toNat) (blockSize layout.size.toNat) free) :
    match Extent.carve (roundUp (grain layout.align.toNat)) (blockSize layout.size.toNat) free with
    | none => h.alloc layout.size layout.align = some (0, h)
    | some (p, free') => ∃ payload h', h.alloc layout.size layout.align = some (payload, h') ∧
        payload.toNat = p ∧ h'.FreeList free' ∧ h'.live = h.live + roundBlock layout.size := by
  obtain ⟨align, k, choice, value, power, whole⟩ := layout.grain_spec
  have need := toNat_roundBlock layout.size_lt
  have few := length_lt_allSteps spaced sound
  have found := allocFrom_spec power whole (need ▸ dvd_blockSize _) free [] 0 h.head allSteps
    few rfl (.inl ⟨rfl, rfl⟩) list spaced sound
    (value.symm ▸ need.symm ▸ searchable)
  rw [value, need] at found
  rw [alloc, ← choice]
  exact found

theorem live_insert (h : Heap) (ptr need prev cur : UInt64) :
    (h.insert ptr need prev cur).live = h.live := by
  rw [insert]
  split
  · split
    · rfl
    · rfl
  · split
    · exact live_relink _ _ _
    · exact live_relink _ _ _

/-- **`dealloc` restores the block to the list.** -/
theorem dealloc_spec {h : Heap} {free : List Extent} (list : h.FreeList free)
    (spaced : Extent.Spaced free) (sound : ∀ e ∈ free, Sound e) {ptr size : UInt64}
    (small : size.toNat < 2 ^ 63) (nonzero : ptr ≠ 0)
    (block : Sound ⟨ptr.toNat, blockSize size.toNat⟩)
    (apart : ∀ e ∈ free, Extent.Apart ⟨ptr.toNat, blockSize size.toNat⟩ e) :
    ∃ h', h.dealloc ptr size = some h' ∧
      h'.FreeList (Extent.restore ⟨ptr.toNat, blockSize size.toNat⟩ free) ∧
      h'.live = h.live - roundBlock size := by
  have need := toNat_roundBlock small
  have few := length_lt_allSteps spaced sound
  obtain ⟨front, back, prev, cur, found, parts, toFront, behind, toBack, below, above⟩ :=
    findFrom_spec { h with live := h.live - roundBlock size } ptr free [] 0 h.head allSteps few rfl
      (.inl ⟨rfl, rfl⟩) list spaced fun _ none => nomatch none
  rw [List.nil_append] at parts
  subst parts
  refine ⟨_, (if_neg nonzero).trans (congrArg (Option.map _) found), ?_, live_insert _ _ _ _ _⟩
  rw [← need] at block apart ⊢
  refine insert_spec toFront behind toBack spaced sound nonzero block ?_ ?_
  · intro e isMember
    have low := below e isMember
    have away := apart e (List.mem_append_left _ isMember)
    have room := block.room
    simp only [Extent.Apart, Extent.stop] at *
    omega
  · intro e isMember
    have high := above e isMember
    have away := apart e (List.mem_append_right _ isMember)
    have room := (sound e (List.mem_append_right _ isMember)).room
    simp only [Extent.Apart, Extent.stop] at *
    omega

end Heap

end RustyPenguin
