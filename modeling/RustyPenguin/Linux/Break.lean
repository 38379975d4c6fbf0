import Mathlib.Data.Finset.Card
import Mathlib.Order.Interval.Finset.Nat
import RustyPenguin.Foundation.Trace
import RustyPenguin.Linux.Contents

/-!
# The break of a process

A process moves its break up and down, and stores bytes. The break itself and the end of what is
backed are kept apart: growing backs pages from the one recorded end to the new break, and records
that as the end, also where more was backed before.

A call keeps the heap as it should, and takes frames only for pages that have none, exactly when no
page that gets a frame in it is mapped already and each can be mapped (`heap_kept_iff`). A process
that shrinks, grows to less than was backed and then grows further loses frames
(`shrunk_break_loses_frames`).
-/

set_option autoImplicit false

namespace RustyPenguin.Linux

/-! ## A process and its heap -/

/-- What the kernel keeps, and the address space of the one process. -/
structure Process where
  globals : Globals
  space : Space

/-- A process moves its break, or stores a byte. -/
inductive HeapEvent where
  | brk (addr : UInt64) (supply : Supply)
  | store (x : UInt64) (b : UInt8)

namespace Process

/-- A call or a store that faults leaves the process where it was. -/
def step (p : Process) : HeapEvent → Process
  | .brk addr supply =>
    match brk supply addr p.globals p.space with
    | some (_, g, sp) => ⟨g, sp⟩
    | none => p
  | .store x b =>
    match p.space.write x [b] with
    | some sp => { p with space := sp }
    | none => p

/-- A process that has not moved its break. -/
structure Fresh (p : Process) : Prop where
  cur : p.globals.brkCur = brkBase
  mapped : p.globals.brkMapped = 0

end Process

/-- The pages of the heap. -/
def heapPages : Finset Nat := Finset.Ico (pageOf brkBase) (pageOf brkCap)

/-- A call moves the break up to an address inside the heap. -/
def Grows (g : Globals) (addr : UInt64) : Prop :=
  (brkBase ≤ addr ∧ addr ≤ brkCap) ∧ g.brkCur < addr

instance (g : Globals) (addr : UInt64) : Decidable (Grows g addr) :=
  inferInstanceAs (Decidable (_ ∧ _))

/-- The pages that a call backs: none unless it moves the break up. -/
def wanted (g : Globals) (addr : UInt64) : List Nat :=
  if Grows g addr then pagesBetween g.brkStart (pageUp addr) else []

/-- What a call that answers `ret` and takes some frames should do to the heap. -/
structure HeapKept (surface before : UInt64 → UInt8) (p p' : Process) (ret : UInt64)
    (frames : Nat) : Prop where
  told : p'.globals.brkCur = ret
  mapped : Backed p'.space ret
  kept : ∀ x, brkBase ≤ x → x < p.globals.brkCur → x < ret →
    p'.space.bytes surface before x = p.space.bytes surface before x
  zeroed : ∀ x, p.globals.brkCur ≤ x → x < ret → p'.space.bytes surface before x = 0
  once : ∀ page, Effect.fresh page ∈ p'.space.effects.drop p.space.effects.length →
    p.space.mapped page = false
  used : (heapPages.filter fun page =>
    p'.space.mapped page = true ∧ p.space.mapped page = false).card = frames

namespace Process

/-- A call answers, and keeps the heap; every frame it takes backs a page that had none. -/
def KeepsHeap (p : Process) : HeapEvent → Prop
  | .brk addr supply => ∃ ret g sp, brk supply addr p.globals p.space = some (ret, g, sp) ∧
      ∀ surface before, HeapKept surface before p ⟨g, sp⟩ ret
        (reached supply (wanted p.globals addr)).length
  | .store _ _ => True

/-- No page that gets a frame is mapped already, and each can be mapped. -/
def Unbacked (p : Process) : HeapEvent → Prop
  | .brk addr supply => ∀ page ∈ reached supply (wanted p.globals addr),
      p.space.mapped page = false ∧ supply.tables page = true
  | .store _ _ => True

/-- What holds between calls: the pages below the recorded end are mapped. -/
structure Sound (p : Process) : Prop where
  base : brkBase.toNat ≤ p.globals.brkCur.toNat
  below : p.globals.brkCur.toNat ≤ p.globals.brkStart.toNat
  cap : p.globals.brkStart.toNat ≤ brkCap.toNat
  aligned : p.globals.brkStart.toNat % 4096 = 0
  mapped : ∀ page, pageOf brkBase ≤ page → page < pageOf p.globals.brkStart →
    p.space.mapped page = true

theorem Fresh.sound {p : Process} (fresh : Fresh p) : Sound p := by
  have start : p.globals.brkStart = brkBase := by
    rw [Globals.brkStart, if_pos fresh.mapped]
  refine ⟨?_, ?_, ?_, ?_, ?_⟩
  · rw [fresh.cur]
  · rw [fresh.cur, start]
  · rw [start]
    decide
  · rw [start]
    decide
  · intro page low high
    rw [start] at high
    omega

end Process

/-! ## The pages that are wanted -/

theorem toNat_brkBase : brkBase.toNat = 0x07000000 := rfl

theorem toNat_brkCap : brkCap.toNat = 0x08000000 := rfl

section Wanted

variable {p : Process} {addr : UInt64} {supply : Supply}

theorem wanted_of_grows (grows : Grows p.globals addr) :
    wanted p.globals addr = pagesBetween p.globals.brkStart (pageUp addr) := if_pos grows

theorem wanted_of_stays (stays : ¬ Grows p.globals addr) : wanted p.globals addr = [] :=
  if_neg stays

/-- The page up to which a call backs the heap. -/
theorem pageOf_pageUp (grows : Grows p.globals addr) :
    pageOf (pageUp addr) = (addr.toNat + 4095) / 4096 := by
  have high := UInt64.le_iff_toNat_le.mp grows.1.2
  have cap := toNat_brkCap
  rw [pageOf, toNat_pageUp, Nat.mod_eq_of_lt (by omega)]
  omega

theorem wanted_private (grows : Grows p.globals addr) :
    ∀ page ∈ pagesBetween p.globals.brkStart (pageUp addr), isPrivate page = true := by
  intro page here
  obtain ⟨-, high⟩ := mem_pagesBetween.mp here
  rw [pageOf_pageUp grows] at high
  have top := UInt64.le_iff_toNat_le.mp grows.1.2
  have cap := toNat_brkCap
  rw [isPrivate, decide_eq_true_eq]
  omega

/-- A page that gets a frame is a page of the heap, from the recorded end on. -/
theorem mem_reached (sound : p.Sound) {page : Nat}
    (here : page ∈ reached supply (wanted p.globals addr)) :
    page ∈ heapPages ∧ pageOf p.globals.brkStart ≤ page := by
  by_cases grows : Grows p.globals addr
  · rw [wanted_of_grows grows, reached] at here
    obtain ⟨low, high⟩ := mem_pagesBetween.mp (List.mem_of_mem_take here)
    rw [pageOf_pageUp grows] at high
    have top := UInt64.le_iff_toNat_le.mp grows.1.2
    have cap := toNat_brkCap
    have base := sound.base
    have below := sound.below
    rw [pageOf] at low
    refine ⟨?_, by rw [pageOf]; exact low⟩
    rw [heapPages, Finset.mem_Ico, pageOf, pageOf]
    omega
  · rw [wanted_of_stays grows, reached, List.take_nil] at here
    cases here

theorem reached_nodup : (reached supply (wanted p.globals addr)).Nodup := by
  rw [reached, wanted]
  refine List.Nodup.sublist (List.take_sublist _ _) ?_
  split
  · rw [pagesBetween]
    exact List.nodup_range'
  · exact List.nodup_nil

end Wanted

/-! ## One call -/

namespace Process

variable {p : Process} {addr : UInt64} {supply : Supply}

/-- Below the break every page of the heap is mapped. -/
theorem Sound.backed (sound : p.Sound) {top : UInt64} (below : top ≤ p.globals.brkCur) :
    Backed p.space top := by
  intro x low high
  have base := UInt64.le_iff_toNat_le.mp low
  have under := UInt64.lt_iff_toNat_lt.mp high
  have top' := UInt64.le_iff_toNat_le.mp below
  have start := sound.below
  have aligned := sound.aligned
  refine sound.mapped _ ?_ ?_
  · rw [pageOf, pageOf]
    omega
  · rw [pageOf, pageOf]
    omega

/-- A call that does not move the break up only says where it is. -/
theorem brk_stays (supply : Supply) (sound : p.Sound) (stays : ¬ Grows p.globals addr) :
    ∃ ret g, brk supply addr p.globals p.space = some (ret, g, p.space) ∧ g.brkCur = ret ∧
      ret ≤ p.globals.brkCur ∧ g.brkMapped = p.globals.brkMapped ∧ brkBase ≤ ret := by
  have base : brkBase ≤ p.globals.brkCur := UInt64.le_iff_toNat_le.mpr sound.base
  rw [brk]
  split
  · next inside =>
    split
    · next up => exact absurd ⟨inside, up⟩ stays
    · next down => exact ⟨addr, _, rfl, rfl, UInt64.not_lt.mp down, rfl, inside.1⟩
  · exact ⟨_, _, rfl, rfl, UInt64.le_refl _, rfl, base⟩

theorem heapKept_of_stays (sound : p.Sound) {ret : UInt64} {g : Globals} (told : g.brkCur = ret)
    (below : ret ≤ p.globals.brkCur) (surface before : UInt64 → UInt8) :
    HeapKept surface before p ⟨g, p.space⟩ ret 0 where
  told := told
  mapped := sound.backed below
  kept _ _ _ _ := rfl
  zeroed x low high := absurd (UInt64.lt_of_lt_of_le high below) (UInt64.not_lt.mpr low)
  once page fresh := by
    rw [List.drop_length] at fresh
    cases fresh
  used := by
    rw [Finset.card_eq_zero, Finset.filter_eq_empty_iff]
    rintro page - ⟨here, missing⟩
    rw [here] at missing
    cases missing

/-- What a growing call leaves of the address space before it clears the new bytes. -/
theorem back_spec (supply : Supply) (grows : Grows p.globals addr) : ∃ sp,
    backPages supply.tables supply.frames (pagesBetween p.globals.brkStart (pageUp addr)) p.space =
      some (decide ((wanted p.globals addr).length ≤ supply.frames), sp) ∧
    sp.effects = p.space.effects ++
      ((reached supply (wanted p.globals addr)).filter supply.tables).map Effect.fresh ∧
    ∀ page, sp.mapped page = true ↔ p.space.mapped page = true ∨
      page ∈ reached supply (wanted p.globals addr) ∧ supply.tables page = true := by
  rw [wanted_of_grows grows]
  exact backPages_spec supply.tables supply.frames p.space (wanted_private grows)

theorem brk_grows (grows : Grows p.globals addr) : brk supply addr p.globals p.space =
    growBrk supply addr p.globals p.space := by
  rw [brk, if_pos grows.1, if_pos grows.2]

/-- The new pages of an address space are as many as the frames that were taken exactly when every
frame went to a page without one. -/
theorem card_new_eq (sound : p.Sound) {sp : Space}
    (mapped : ∀ page, sp.mapped page = true ↔ p.space.mapped page = true ∨
      page ∈ reached supply (wanted p.globals addr) ∧ supply.tables page = true) :
    (heapPages.filter fun page => sp.mapped page = true ∧ p.space.mapped page = false).card =
        (reached supply (wanted p.globals addr)).length ↔
      p.Unbacked (.brk addr supply) := by
  have same : (heapPages.filter fun page => sp.mapped page = true ∧ p.space.mapped page = false) =
      (reached supply (wanted p.globals addr)).toFinset.filter fun page =>
        p.space.mapped page = false ∧ supply.tables page = true := by
    ext page
    rw [Finset.mem_filter, Finset.mem_filter, List.mem_toFinset, mapped]
    constructor
    · rintro ⟨-, there | ⟨here, table⟩, missing⟩
      · rw [there] at missing
        cases missing
      · exact ⟨here, missing, table⟩
    · rintro ⟨here, missing, table⟩
      exact ⟨(mem_reached sound here).1, .inr ⟨here, table⟩, missing⟩
  have all : (reached supply (wanted p.globals addr)).toFinset.card = _ :=
    List.toFinset_card_of_nodup reached_nodup
  rw [same, ← all, Finset.card_filter_eq_iff]
  exact ⟨fun every page here => every page (List.mem_toFinset.mpr here),
    fun every page here => every page (List.mem_toFinset.mp here)⟩

/-- **Frames that go to pages without one**: a call keeps the heap only so. -/
theorem unbacked_of_keepsHeap (sound : p.Sound) (keeps : p.KeepsHeap (.brk addr supply)) :
    p.Unbacked (.brk addr supply) := by
  by_cases grows : Grows p.globals addr
  · obtain ⟨ret, g, sp, runs, kept⟩ := keeps
    obtain ⟨sp₁, backs, -, mapped⟩ := back_spec supply grows
    rw [brk_grows grows, growBrk] at runs
    obtain ⟨⟨all, sp₂⟩, backs', runs⟩ := Option.bind_eq_some_iff.mp runs
    have result := Option.some.inj (backs.symm.trans backs')
    cases result
    have same : sp.mapped = sp₁.mapped := by
      dsimp only at runs
      split at runs
      · obtain ⟨sp₂, zeroed, runs⟩ := Option.bind_eq_some_iff.mp runs
        cases runs
        exact (Space.touch_eq_some zeroed).1
      · cases runs
        rfl
    have mapped' : ∀ page, sp.mapped page = true ↔ p.space.mapped page = true ∨
        page ∈ reached supply (wanted p.globals addr) ∧ supply.tables page = true := by
      rw [same]
      exact mapped
    exact (card_new_eq sound mapped').mp (kept (fun _ => 0) fun _ => 0).used
  · intro page here
    rw [wanted_of_stays grows, reached, List.take_nil] at here
    cases here

section Unbacked

variable (sound : p.Sound) (grows : Grows p.globals addr)
  (unbacked : p.Unbacked (.brk addr supply)) {sp : Space}
  (effects : sp.effects = p.space.effects ++
    ((reached supply (wanted p.globals addr)).filter supply.tables).map Effect.fresh)
  (mapped : ∀ page, sp.mapped page = true ↔ p.space.mapped page = true ∨
    page ∈ reached supply (wanted p.globals addr) ∧ supply.tables page = true)

include sound effects

/-- Bytes below the break are in pages that get no frame. -/
theorem bytes_below (surface before : UInt64 → UInt8) {x : UInt64}
    (under : x < p.globals.brkCur) :
    sp.bytes surface before x = p.space.bytes surface before x := by
  have low := UInt64.lt_iff_toNat_lt.mp under
  have below := sound.below
  have aligned := sound.aligned
  rw [bytes_append effects, foldl_fresh, if_neg]
  intro here
  obtain ⟨-, high⟩ := mem_reached sound (List.mem_of_mem_filter here)
  rw [pageOf, pageOf] at high
  omega

omit sound in
include unbacked in
theorem once_of_unbacked (more : List Effect) (other : ∀ page, Effect.fresh page ∉ more) {page : Nat}
    (fresh : Effect.fresh page ∈ (sp.effects ++ more).drop p.space.effects.length) :
    p.space.mapped page = false := by
  rw [effects, List.append_assoc, List.drop_left, List.mem_append] at fresh
  obtain here | later := fresh
  · obtain ⟨page', here, same⟩ := List.mem_map.mp here
    cases same
    exact (unbacked _ (List.mem_of_mem_filter here)).1
  · exact absurd later (other page)

include unbacked mapped

/-- A call that runs out of frames leaves the break. -/
theorem heapKept_short (surface before : UInt64 → UInt8) :
    HeapKept surface before p ⟨p.globals, sp⟩ p.globals.brkCur
      (reached supply (wanted p.globals addr)).length where
  told := rfl
  mapped := (sound.backed (UInt64.le_refl _)).grows fun page here => (mapped page).mpr (.inl here)
  kept x _ under _ := bytes_below sound effects surface before under
  zeroed x low high := absurd high (UInt64.not_lt.mpr low)
  once page fresh := by
    refine once_of_unbacked unbacked effects [] (fun _ none => nomatch none) ?_
    rw [List.append_nil]
    exact fresh
  used := (card_new_eq sound mapped).mpr unbacked

include grows

omit effects in
/-- With all frames the pages of the new bytes are mapped. -/
theorem mapped_of_all (all : (wanted p.globals addr).length ≤ supply.frames) :
    ∀ page ∈ pagesOf p.globals.brkCur (addr - p.globals.brkCur).toNat,
      isPrivate page = true ∧ sp.mapped page = true := by
  intro page here
  have up := UInt64.lt_iff_toNat_lt.mp grows.2
  have top := UInt64.le_iff_toNat_le.mp grows.1.2
  have cap := toNat_brkCap
  have base := sound.base
  rw [pagesOf, List.mem_range'_1, UInt64.toNat_sub_of_le _ _ (UInt64.le_of_lt grows.2)] at here
  obtain ⟨low, high⟩ := here
  refine ⟨?_, ?_⟩
  · rw [isPrivate, decide_eq_true_eq]
    omega
  · rw [mapped]
    by_cases old : page < pageOf p.globals.brkStart
    · refine .inl (sound.mapped page ?_ old)
      rw [pageOf] at low ⊢
      omega
    · have new : page ∈ reached supply (wanted p.globals addr) := by
        rw [reached, List.take_of_length_le all, wanted_of_grows grows, mem_pagesBetween,
          pageOf_pageUp grows]
        omega
      exact .inr ⟨new, (unbacked page new).2⟩

/-- A call that gets all its frames moves the break, and clears the new bytes. -/
theorem heapKept_all (all : (wanted p.globals addr).length ≤ supply.frames)
    (surface before : UInt64 → UInt8) {g : Globals} (told : g.brkCur = addr) :
    HeapKept surface before p
      ⟨g, { sp with effects := sp.effects ++
        [.zero p.globals.brkCur (addr - p.globals.brkCur).toNat] }⟩ addr
      (reached supply (wanted p.globals addr)).length := by
  have up := UInt64.lt_iff_toNat_lt.mp grows.2
  have size := UInt64.toNat_sub_of_le _ _ (UInt64.le_of_lt grows.2)
  have new := mapped_of_all sound grows unbacked mapped all
  refine ⟨told, ?_, ?_, ?_, ?_, ?_⟩
  · intro x low high
    by_cases old : x < p.globals.brkCur
    · exact (mapped _).mpr (.inl (sound.backed (UInt64.le_refl _) x low old))
    · have above : p.globals.brkCur ≤ x := UInt64.not_lt.mp old
      have high' := UInt64.lt_iff_toNat_lt.mp high
      exact (new _ (mem_pagesOf above (by omega))).2
  · intro x _ under _
    have under' := UInt64.lt_iff_toNat_lt.mp under
    rw [bytes_zero, if_neg (by omega)]
    exact bytes_below sound effects surface before under
  · intro x low high
    have low' := UInt64.le_iff_toNat_le.mp low
    have high' := UInt64.lt_iff_toNat_lt.mp high
    rw [bytes_zero, if_pos (by omega)]
  · intro page fresh
    refine once_of_unbacked unbacked effects _ (fun page zero => ?_) fresh
    rw [List.mem_singleton] at zero
    cases zero
  · exact (card_new_eq sound mapped).mpr unbacked

end Unbacked

/-- What a growing call that takes its frames for unbacked pages does. -/
theorem brk_of_unbacked (sound : p.Sound) (grows : Grows p.globals addr)
    (unbacked : p.Unbacked (.brk addr supply)) :
    ∃ ret g sp, brk supply addr p.globals p.space = some (ret, g, sp) ∧
      (∀ surface before, HeapKept surface before p ⟨g, sp⟩ ret
        (reached supply (wanted p.globals addr)).length) ∧ Sound ⟨g, sp⟩ := by
  obtain ⟨sp, backs, effects, mapped⟩ := back_spec supply grows
  have more : ∀ page, p.space.mapped page = true → sp.mapped page = true :=
    fun page here => (mapped page).mpr (.inl here)
  rw [brk_grows grows, growBrk, backs]
  by_cases all : (wanted p.globals addr).length ≤ supply.frames
  · rw [decide_eq_true all]
    have new := mapped_of_all sound grows unbacked mapped all
    have zeroes := touch_of_mapped
      (.zero p.globals.brkCur (addr - p.globals.brkCur).toNat) new
    let g := { p.globals with brkMapped := pageUp addr, brkCur := addr }
    refine ⟨addr, g, _, Option.bind_eq_some_iff.mpr ⟨(true, sp), rfl,
      Option.bind_eq_some_iff.mpr ⟨_, zeroes, rfl⟩⟩, fun surface before =>
      heapKept_all sound grows unbacked effects mapped all surface before rfl, ?_⟩
    have up := UInt64.lt_iff_toNat_lt.mp grows.2
    have top := UInt64.le_iff_toNat_le.mp grows.1.2
    have cap := toNat_brkCap
    have base := sound.base
    have low := toNat_brkBase
    have end_ : (pageUp addr).toNat = (addr.toNat + 4095) / 4096 * 4096 := by
      rw [toNat_pageUp, Nat.mod_eq_of_lt (by omega)]
    have nonzero : pageUp addr ≠ 0 := by
      intro zero
      have none := congrArg UInt64.toNat zero
      rw [end_, UInt64.toNat_zero] at none
      omega
    have start : g.brkStart = pageUp addr := if_neg nonzero
    refine ⟨?_, ?_, ?_, ?_, ?_⟩
    · change brkBase.toNat ≤ addr.toNat
      omega
    · change addr.toNat ≤ g.brkStart.toNat
      rw [start, end_]
      omega
    · rw [start, end_]
      omega
    · rw [start, end_]
      omega
    · intro page low high
      rw [start] at high
      by_cases old : page < pageOf p.globals.brkStart
      · exact more page (sound.mapped page low old)
      · have here : page ∈ reached supply (wanted p.globals addr) := by
          rw [reached, List.take_of_length_le all, wanted_of_grows grows, mem_pagesBetween]
          omega
        exact (mapped page).mpr (.inr ⟨here, (unbacked page here).2⟩)
  · rw [decide_eq_false all]
    refine ⟨_, _, _, rfl, fun surface before =>
      heapKept_short sound unbacked effects mapped surface before, ?_⟩
    exact ⟨sound.base, sound.below, sound.cap, sound.aligned, fun page low high =>
      more page (sound.mapped page low high)⟩

/-- **A call keeps the heap exactly when its frames go to pages without one.** -/
theorem keepsHeap_iff (sound : p.Sound) (e : HeapEvent) : p.KeepsHeap e ↔ p.Unbacked e := by
  cases e with
  | store x b => exact Iff.rfl
  | brk addr supply =>
    refine ⟨unbacked_of_keepsHeap sound, fun unbacked => ?_⟩
    by_cases grows : Grows p.globals addr
    · obtain ⟨ret, g, sp, runs, kept, -⟩ := brk_of_unbacked sound grows unbacked
      exact ⟨ret, g, sp, runs, kept⟩
    · obtain ⟨ret, g, runs, told, below, -⟩ := brk_stays supply sound grows
      rw [KeepsHeap, wanted_of_stays grows, reached, List.take_nil]
      exact ⟨ret, g, _, runs, fun surface before =>
        heapKept_of_stays sound told below surface before⟩

theorem Sound.step (sound : p.Sound) {e : HeapEvent} (unbacked : p.Unbacked e) :
    (p.step e).Sound := by
  cases e with
  | store x b =>
    rw [Process.step]
    cases wrote : p.space.write x [b] with
    | none => exact sound
    | some sp =>
      have same := (Space.touch_eq_some wrote).1
      refine ⟨sound.base, sound.below, sound.cap, sound.aligned, fun page low high => ?_⟩
      rw [same]
      exact sound.mapped page low high
  | brk addr supply =>
    rw [Process.step]
    by_cases grows : Grows p.globals addr
    · obtain ⟨ret, g, sp, runs, -, sound'⟩ := brk_of_unbacked sound grows unbacked
      rw [runs]
      exact sound'
    · obtain ⟨ret, g, runs, told, below, same, base⟩ := brk_stays supply sound grows
      have start : g.brkStart = p.globals.brkStart := by
        rw [Globals.brkStart, Globals.brkStart, same]
      have base' := UInt64.le_iff_toNat_le.mp base
      have below' := UInt64.le_iff_toNat_le.mp below
      rw [runs]
      refine ⟨?_, ?_, ?_, ?_, ?_⟩
      · rw [told]
        exact base'
      · rw [told, start]
        exact Nat.le_trans below' sound.below
      · rw [start]
        exact sound.cap
      · rw [start]
        exact sound.aligned
      · intro page low high
        rw [start] at high
        exact sound.mapped page low high

/-- From a sound process on, every call keeps the heap exactly when none backs a page again. -/
theorem Sound.each_keepsHeap (sound : p.Sound) (events : List HeapEvent) :
    Trace.Each Process.step p KeepsHeap events ↔ Trace.Each Process.step p Unbacked events :=
  Trace.each_congr sound (fun _ _ sound unbacked => sound.step unbacked)
    (fun _ e sound => keepsHeap_iff sound e) events

instance (p : Process) : (e : HeapEvent) → Decidable (p.Unbacked e)
  | .brk addr supply => inferInstanceAs (Decidable
      (∀ page ∈ reached supply (wanted p.globals addr), _ ∧ supply.tables page = true))
  | .store _ _ => inferInstanceAs (Decidable True)

/-- A process that starts with nothing mapped in its heap. -/
def start : Process := ⟨Globals.start 0, ⟨fun _ => false, []⟩⟩

theorem start_fresh : start.Fresh := ⟨rfl, rfl⟩

end Process

open Process

/-- **The heap is kept in every call of a process exactly when in every call the pages that get a
frame are not mapped yet and can be.** -/
theorem heap_kept_iff (p : Process) (fresh : p.Fresh) (events : List HeapEvent) :
    Trace.Each step p KeepsHeap events ↔ Trace.Each step p Unbacked events :=
  fresh.sound.each_keepsHeap events

/-- Growth by parts of pages, a store, a shrink and growth beyond what was backed. -/
theorem heap_kept_in_pages : Trace.Each step start KeepsHeap
    [.brk 0x07001234 ⟨2, fun _ => true, none⟩, .store 0x07001000 7,
      .brk 0x07000100 ⟨0, fun _ => true, none⟩, .brk 0x07003001 ⟨2, fun _ => true, none⟩] :=
  (heap_kept_iff start start_fresh _).mpr (by decide)

/-- **A shrunk break loses frames**: growing to less than was backed forgets the rest, which gets
frames again. -/
theorem shrunk_break_loses_frames : ¬ ∀ p : Process, p.Fresh → ∀ events : List HeapEvent,
    Trace.Each step p KeepsHeap events := by
  intro always
  have kept := always start start_fresh
    [.brk 0x07003000 ⟨9, fun _ => true, none⟩, .brk 0x07000000 ⟨9, fun _ => true, none⟩,
      .brk 0x07001000 ⟨9, fun _ => true, none⟩, .brk 0x07003000 ⟨9, fun _ => true, none⟩]
  have unbacked := (start_fresh.sound.each_keepsHeap _).mp kept
  revert unbacked
  decide

end RustyPenguin.Linux
