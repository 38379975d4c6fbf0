import RustyPenguin.Foundation.Trace
import RustyPenguin.Linux.Contents

/-!
# The arena of mappings

A process asks for mappings without saying where. The kernel takes them from an arena, behind a
cursor that moves up with every call it serves: it rounds the length up to pages, backs the pages,
and fills them with zeros or from an open file.

A call is served as it should be, or refused and the cursor left, exactly when it does not ask for
the framebuffer's surface, asks for something, asks for less than what wraps around, and finds no
room in the arena or else frames and tables for all its pages (`arena_served_iff`). Nothing refuses
a length of zero (`empty_mapping_is_given`).
-/

set_option autoImplicit false

namespace RustyPenguin.Linux

/-! ## Calls and what they should do -/

/-- A call that leaves the place to the kernel. -/
structure MapCall where
  supply : Supply
  addr : UInt64
  len : UInt64
  flags : UInt64
  fd : UInt64
  off : UInt64
  free : ¬ (isFixed flags = true ∧ addr ≠ 0)

/-- What the kernel keeps, the address space of the process, and what it was given so far. -/
structure Mapper where
  globals : Globals
  space : Space
  given : List (UInt64 × UInt64)

/-- An answer that is an error number. -/
def IsError (ret : UInt64) : Prop := 2 ^ 64 - 4096 < ret.toNat

instance (ret : UInt64) : Decidable (IsError ret) := inferInstanceAs (Decidable (_ < _))

/-- The byte at a place of a mapping: of the file from the offset on, or zero. -/
def mappedByte (g : Globals) (flags fd off : UInt64) (k : Nat) : UInt8 :=
  if isAnon flags fd then 0
  else
    match g.fdSlot fd with
    | none => 0
    | some i => (g.fds i).data.getD (off.toNat + k) 0

namespace Mapper

def step (s : Mapper) (c : MapCall) : Mapper :=
  match mmap c.supply c.addr c.len c.flags c.fd c.off s.globals s.space with
  | none => s
  | some (ret, g, sp) => ⟨g, sp, if IsError ret then s.given else s.given ++ [(ret, c.len)]⟩

/-- What a call that is served gives. -/
structure Given (s : Mapper) (c : MapCall) (ret : UInt64) (sp : Space) : Prop where
  some : 0 < c.len.toNat
  aligned : ret.toNat % 4096 = 0
  low : mmapBase.toNat ≤ ret.toNat
  high : ret.toNat + c.len.toNat ≤ mmapCap.toNat
  mapped : ∀ x, ret ≤ x → x.toNat < ret.toNat + c.len.toNat → sp.mapped (pageOf x) = true
  apart : ∀ earlier ∈ s.given, earlier.1.toNat + earlier.2.toNat ≤ ret.toNat
  holds : ∀ surface before x, ret ≤ x → x.toNat < ret.toNat + c.len.toNat →
    sp.bytes surface before x = mappedByte s.globals c.flags c.fd c.off (x.toNat - ret.toNat)

/-- A call gives what it should, or is refused and leaves the cursor. -/
def Serves (s : Mapper) (c : MapCall) : Prop :=
  ∃ ret g sp, mmap c.supply c.addr c.len c.flags c.fd c.off s.globals s.space =
      .some (ret, g, sp) ∧
    (s.Given c ret sp ∨ IsError ret ∧ g.mmapCur = s.globals.mmapCur)

/-- The pages of a length. -/
def pageCount (len : UInt64) : Nat := (len.toNat + 4095) / 4096

/-- The surface of the framebuffer is asked for and cannot be made, or else something is asked for,
no rounding wraps around, and the arena is full or frames and tables are there. -/
def Serviceable (s : Mapper) (c : MapCall) : Prop :=
  if c.fd = devFbFd then s.globals.lfbPhys = 0 ∧ c.supply.surface = none
  else
    0 < c.len.toNat ∧ s.globals.mmapCur.toNat + pageCount c.len * 4096 < 2 ^ 64 ∧
      (mmapCap.toNat < s.globals.mmapCur.toNat + pageCount c.len * 4096 ∨
        pageCount c.len ≤ c.supply.frames ∧
          ∀ page ∈ List.range' (pageOf s.globals.mmapCur) (pageCount c.len),
            c.supply.tables page = true)

/-- What holds between calls. -/
structure Tidy (s : Mapper) : Prop where
  aligned : s.globals.mmapCur.toNat % 4096 = 0
  low : mmapBase.toNat ≤ s.globals.mmapCur.toNat
  high : s.globals.mmapCur.toNat ≤ mmapCap.toNat
  unmapped : ∀ page, pageOf s.globals.mmapCur ≤ page → page < pageOf mmapCap →
    s.space.mapped page = false
  behind : ∀ earlier ∈ s.given,
    earlier.1.toNat + earlier.2.toNat ≤ s.globals.mmapCur.toNat
  short : ∀ i, (s.globals.fds i).data.length < 2 ^ 63

/-- Nothing was mapped in the arena yet. -/
structure Fresh (s : Mapper) : Prop where
  cursor : s.globals.mmapCur = mmapBase
  unmapped : ∀ page, pageOf mmapBase ≤ page → page < pageOf mmapCap → s.space.mapped page = false
  given : s.given = []
  short : ∀ i, (s.globals.fds i).data.length < 2 ^ 63

theorem Fresh.tidy {s : Mapper} (fresh : s.Fresh) : s.Tidy where
  aligned := by
    rw [fresh.cursor]
    decide
  low := by rw [fresh.cursor]
  high := by
    rw [fresh.cursor]
    decide
  unmapped := by
    rw [fresh.cursor]
    exact fresh.unmapped
  behind := by
    rw [fresh.given]
    intro earlier none
    cases none
  short := fresh.short

end Mapper

/-! ## Rounding -/

theorem toNat_mmapBase : mmapBase.toNat = 0x0A000000 := rfl

theorem toNat_mmapCap : mmapCap.toNat = 0x10000000 := rfl

/-- A length that does not wrap around is rounded up to its pages. -/
theorem toNat_pageUp_of_small {len : UInt64} (small : len.toNat + 4095 < 2 ^ 64) :
    (pageUp len).toNat = Mapper.pageCount len * 4096 := by
  rw [toNat_pageUp, Nat.mod_eq_of_lt small, Mapper.pageCount]

/-- An address at the start of a page. -/
theorem toNat_and_page {p : UInt64} (aligned : p.toNat % 4096 = 0) : p &&& ~~~4095 = p := by
  have low : (4095 : UInt64).toNat = 2 ^ 12 - 1 := rfl
  apply UInt64.toNat.inj
  rw [UInt64.toNat_and, UInt64.toNat_not, low]
  exact (Unsigned.and_not_low p.toNat_lt).trans (by omega)

/-! ## What one call does -/

namespace Mapper

section Fill

variable {p askedLen len flags fd off : UInt64} {g : Globals} {sp : Space}

/-- The bytes of a file are copied to the front of a mapping. -/
theorem copyIn_spec {copy : UInt64} {file : OpenFile}
    (there : ∀ page ∈ pagesOf p len.toNat, isPrivate page = true ∧ sp.mapped page = true)
    (inside : copy.toNat ≤ len.toNat) (enough : copy.toNat ≤ file.data.length - off.toNat) :
    ∃ sp', copyIn p copy off file sp = some sp' ∧ sp'.mapped = sp.mapped ∧
      ∀ surface before x, p.toNat ≤ x.toNat → x.toNat < p.toNat + copy.toNat →
        sp'.bytes surface before x = file.data.getD (off.toNat + (x.toNat - p.toNat)) 0 := by
  have length : (file.bytes off copy).length = copy.toNat := by
    rw [OpenFile.bytes, List.length_take, List.length_drop]
    omega
  rw [copyIn]
  split
  · refine ⟨_, touch_of_mapped _ fun page here => there page ?_, rfl, ?_⟩
    · rw [length] at here
      exact pagesOf_subset (Nat.le_refl _) (by omega) page here
    · intro surface before x low high
      rw [bytes_write, length, if_pos ⟨low, high⟩, OpenFile.bytes, List.getD_eq_getElem?_getD,
        List.getD_eq_getElem?_getD, List.getElem?_take_of_lt (by omega), List.getElem?_drop]
  · next none =>
    refine ⟨sp, rfl, rfl, ?_⟩
    intro surface before x low high
    rw [UInt64.lt_iff_toNat_lt, UInt64.toNat_zero] at none
    omega

/-- What is behind the bytes of a file is cleared. -/
theorem zeroTail_spec {copy : UInt64}
    (there : ∀ page ∈ pagesOf p len.toNat, isPrivate page = true ∧ sp.mapped page = true)
    (small : p.toNat + len.toNat < 2 ^ 64) (inside : copy.toNat ≤ len.toNat) :
    ∃ sp', zeroTail p copy len sp = some sp' ∧ sp'.mapped = sp.mapped ∧
      ∀ surface before x, p.toNat ≤ x.toNat → x.toNat < p.toNat + len.toNat →
        sp'.bytes surface before x =
          if x.toNat < p.toNat + copy.toNat then sp.bytes surface before x else 0 := by
  have start : (p + copy).toNat = p.toNat + copy.toNat := by
    rw [UInt64.toNat_add, Nat.mod_eq_of_lt (by omega)]
  rw [zeroTail]
  split
  · next less =>
    have size := UInt64.toNat_sub_of_le _ _ (UInt64.le_of_lt less)
    refine ⟨_, touch_of_mapped _ fun page here => there page ?_, rfl, ?_⟩
    · exact pagesOf_subset (by omega) (by omega) page here
    · intro surface before x low high
      rw [bytes_zero, start, size]
      by_cases front : x.toNat < p.toNat + copy.toNat
      · rw [if_neg (by omega), if_pos front]
      · rw [if_pos (by omega), if_neg front]
  · next all =>
    rw [UInt64.lt_iff_toNat_lt] at all
    refine ⟨sp, rfl, rfl, ?_⟩
    intro surface before x low high
    rw [if_pos (by omega)]

/-- **Filling a mapping** whose pages are there and cleared. -/
theorem fill_spec (flags fd off : UInt64) (there : ∀ page ∈ pagesOf p len.toNat,
      isPrivate page = true ∧ sp.mapped page = true)
    (small : p.toNat + len.toNat < 2 ^ 64) (asked : askedLen.toNat ≤ len.toNat)
    (short : ∀ i, (g.fds i).data.length < 2 ^ 63)
    (clear : ∀ surface before x, p.toNat ≤ x.toNat → x.toNat < p.toNat + len.toNat →
      sp.bytes surface before x = 0) :
    ∃ sp', fill p askedLen len flags fd off g sp = some sp' ∧ sp'.mapped = sp.mapped ∧
      ∀ surface before x, p.toNat ≤ x.toNat → x.toNat < p.toNat + askedLen.toNat →
        sp'.bytes surface before x = mappedByte g flags fd off (x.toNat - p.toNat) := by
  rw [fill]
  by_cases anon : isAnon flags fd = true
  · rw [if_pos anon]
    refine ⟨_, touch_of_mapped _ there, rfl, ?_⟩
    intro surface before x low high
    rw [bytes_zero, if_pos (by omega), mappedByte, if_pos anon]
  · rw [if_neg anon]
    cases slot : g.fdSlot fd with
    | none =>
      refine ⟨sp, rfl, rfl, ?_⟩
      intro surface before x low high
      rw [clear surface before x low (by omega), mappedByte, if_neg anon, slot]
    | some i =>
      have rest := toNat_rest (short i) off
      have copied := toNat_min ((g.fds i).rest off) askedLen
      have inside : (min ((g.fds i).rest off) askedLen).toNat ≤ len.toNat := by omega
      have enough : (min ((g.fds i).rest off) askedLen).toNat ≤
          (g.fds i).data.length - off.toNat := by omega
      obtain ⟨sp₁, copies, same₁, front⟩ := copyIn_spec there inside enough
      rw [← same₁] at there
      obtain ⟨sp₂, clears, same₂, all⟩ := zeroTail_spec there small inside
      refine ⟨sp₂, ?_, same₂.trans same₁, ?_⟩
      · exact Option.bind_eq_some_iff.mpr ⟨sp₁, copies, clears⟩
      · intro surface before x low high
        rw [all surface before x low (by omega), mappedByte, if_neg anon, slot]
        split
        · next short => exact front surface before x low short
        · next beyond =>
          change 0 = (g.fds i).data.getD _ 0
          rw [List.getD_eq_getElem?_getD, List.getElem?_eq_none (by omega), Option.getD_none]

/-- Filling a mapping maps nothing. -/
theorem fill_mapped {sp' : Space} (ran : fill p askedLen len flags fd off g sp = some sp') :
    sp'.mapped = sp.mapped := by
  rw [fill] at ran
  split at ran
  · exact (Space.touch_eq_some ran).1
  · split at ran
    · cases ran
      rfl
    · obtain ⟨sp₁, copied, ran⟩ := Option.bind_eq_some_iff.mp ran
      have first : sp₁.mapped = sp.mapped := by
        rw [copyIn] at copied
        split at copied
        · exact (Space.touch_eq_some copied).1
        · cases copied
          rfl
      rw [← first]
      rw [zeroTail] at ran
      split at ran
      · exact (Space.touch_eq_some ran).1
      · cases ran
        rfl

end Fill

section Room

variable {s : Mapper} {c : MapCall}

/-- The globals once a mapping was placed. -/
def placed (s : Mapper) (c : MapCall) : Globals :=
  { s.globals with mmapCur := s.globals.mmapCur + pageUp c.len }

theorem place_eq (s : Mapper) (c : MapCall) : place c.addr (pageUp c.len) c.flags s.globals =
    if s.globals.mmapCur + pageUp c.len ≤ mmapCap then some (s.globals.mmapCur, s.placed c)
    else none := if_neg c.free

/-- The pages of a mapping that is placed in the arena. -/
theorem pages_eq (tidy : s.Tidy) {n : Nat} (size : (pageUp c.len).toNat = n * 4096)
    (room : s.globals.mmapCur.toNat + n * 4096 ≤ mmapCap.toNat) :
    pagesBetween (s.globals.mmapCur &&& ~~~4095) (pageUp (s.globals.mmapCur + pageUp c.len)) =
      List.range' (pageOf s.globals.mmapCur) n := by
  have aligned := tidy.aligned
  have cap := toNat_mmapCap
  have stop : (s.globals.mmapCur + pageUp c.len).toNat = s.globals.mmapCur.toNat + n * 4096 := by
    rw [UInt64.toNat_add, size, Nat.mod_eq_of_lt (by omega)]
  have count : pageOf (pageUp (s.globals.mmapCur + pageUp c.len)) - pageOf s.globals.mmapCur = n := by
    rw [pageOf, pageOf, toNat_pageUp, stop, Nat.mod_eq_of_lt (by omega)]
    omega
  rw [toNat_and_page aligned, pagesBetween, count]

/-- A mapping that finds room is backed, and filled if there were frames for it. -/
theorem mmap_of_room (tidy : s.Tidy) (file : c.fd ≠ devFbFd) {n : Nat}
    (size : (pageUp c.len).toNat = n * 4096)
    (room : s.globals.mmapCur.toNat + n * 4096 ≤ mmapCap.toNat) :
    ∃ sp, sp.effects = s.space.effects ++
        (((List.range' (pageOf s.globals.mmapCur) n).take c.supply.frames).filter
          c.supply.tables).map Effect.fresh ∧
      (∀ page, sp.mapped page = true ↔ s.space.mapped page = true ∨
        page ∈ (List.range' (pageOf s.globals.mmapCur) n).take c.supply.frames ∧
          c.supply.tables page = true) ∧
      mmap c.supply c.addr c.len c.flags c.fd c.off s.globals s.space =
        if n ≤ c.supply.frames then
          (fill s.globals.mmapCur c.len (pageUp c.len) c.flags c.fd c.off (s.placed c) sp).map
            fun sp => (s.globals.mmapCur, s.placed c, sp)
        else some (enomem, s.placed c, sp) := by
  have cap := toNat_mmapCap
  have stop : (s.globals.mmapCur + pageUp c.len).toNat = s.globals.mmapCur.toNat + n * 4096 := by
    rw [UInt64.toNat_add, size, Nat.mod_eq_of_lt (by omega)]
  have fits : s.globals.mmapCur + pageUp c.len ≤ mmapCap := by
    rw [UInt64.le_iff_toNat_le, stop]
    exact room
  have inside : ∀ page ∈ List.range' (pageOf s.globals.mmapCur) n, isPrivate page = true := by
    intro page here
    rw [List.mem_range'_1, pageOf] at here
    rw [isPrivate, decide_eq_true_eq]
    omega
  obtain ⟨sp, backs, effects, mapped⟩ :=
    backPages_spec c.supply.tables c.supply.frames s.space inside
  refine ⟨sp, effects, mapped, ?_⟩
  rw [List.length_range'] at backs
  rw [mmap, if_neg file]
  dsimp only
  rw [place_eq, if_pos fits]
  dsimp only
  rw [pages_eq tidy size room, backs]
  by_cases enough : n ≤ c.supply.frames
  · rw [decide_eq_true enough, if_pos enough, Option.map_eq_bind]
    rfl
  · rw [decide_eq_false enough, if_neg enough]
    rfl

/-- A mapping for which there is no room is refused. -/
theorem mmap_of_full (file : c.fd ≠ devFbFd)
    (full : ¬ s.globals.mmapCur + pageUp c.len ≤ mmapCap) :
    mmap c.supply c.addr c.len c.flags c.fd c.off s.globals s.space =
      some (enomem, s.globals, s.space) := by
  rw [mmap, if_neg file]
  dsimp only
  rw [place_eq, if_neg full]

theorem enomem_isError : IsError enomem := by decide

/-- **A mapping with room, frames and tables** is given as it should be. -/
theorem given_of_room (tidy : s.Tidy) (file : c.fd ≠ devFbFd) (some : 0 < c.len.toNat)
    (room : s.globals.mmapCur.toNat + pageCount c.len * 4096 ≤ mmapCap.toNat)
    (frames : pageCount c.len ≤ c.supply.frames)
    (tables : ∀ page ∈ List.range' (pageOf s.globals.mmapCur) (pageCount c.len),
      c.supply.tables page = true) :
    ∃ sp, mmap c.supply c.addr c.len c.flags c.fd c.off s.globals s.space =
        .some (s.globals.mmapCur, s.placed c, sp) ∧
      s.Given c s.globals.mmapCur sp ∧
      ∀ page, sp.mapped page = true ↔ s.space.mapped page = true ∨
        page ∈ List.range' (pageOf s.globals.mmapCur) (pageCount c.len) := by
  have cap := toNat_mmapCap
  have asked : c.len.toNat ≤ pageCount c.len * 4096 := by
    rw [pageCount]
    omega
  have small : c.len.toNat + 4095 < 2 ^ 64 := by
    rw [pageCount] at room
    omega
  have size := toNat_pageUp_of_small small
  have aligned := tidy.aligned
  obtain ⟨sp₁, effects, mapped, runs⟩ := mmap_of_room tidy file size room
  rw [if_pos frames] at runs
  rw [List.take_of_length_le (by rw [List.length_range']; exact frames)] at effects mapped
  rw [List.filter_eq_self.mpr tables] at effects
  have mapped' : ∀ page, sp₁.mapped page = true ↔ s.space.mapped page = true ∨
      page ∈ List.range' (pageOf s.globals.mmapCur) (pageCount c.len) := by
    intro page
    rw [mapped]
    exact or_congr_right ⟨And.left, fun here => ⟨here, tables page here⟩⟩
  have there : ∀ page ∈ pagesOf s.globals.mmapCur (pageUp c.len).toNat,
      isPrivate page = true ∧ sp₁.mapped page = true := by
    intro page here
    rw [pagesOf, List.mem_range'_1, pageOf, size] at here
    refine ⟨?_, (mapped' page).mpr (.inr ?_)⟩
    · rw [isPrivate, decide_eq_true_eq]
      omega
    · rw [List.mem_range'_1, pageOf]
      omega
  have clear : ∀ surface before x, s.globals.mmapCur.toNat ≤ x.toNat →
      x.toNat < s.globals.mmapCur.toNat + (pageUp c.len).toNat →
      sp₁.bytes surface before x = 0 := by
    intro surface before x low high
    rw [bytes_append effects, foldl_fresh, if_pos]
    rw [List.mem_range'_1, pageOf, pageOf]
    omega
  have within : c.len.toNat ≤ (pageUp c.len).toNat := by
    rw [size]
    exact asked
  obtain ⟨sp₂, fills, same, holds⟩ := fill_spec c.flags c.fd c.off (g := s.placed c)
    there (by omega) within tidy.short clear
  rw [fills] at runs
  rw [← same] at mapped'
  refine ⟨sp₂, runs, ⟨some, aligned, tidy.low, by omega, ?_, tidy.behind, ?_⟩, mapped'⟩
  · intro x low high
    have low' := UInt64.le_iff_toNat_le.mp low
    refine (mapped' _).mpr (.inr ?_)
    rw [List.mem_range'_1, pageOf, pageOf]
    omega
  · intro surface before x low high
    exact holds surface before x (UInt64.le_iff_toNat_le.mp low) high

/-- A cursor is not an error number. -/
theorem cursor_not_error (tidy : s.Tidy) : ¬ IsError s.globals.mmapCur := by
  have high := tidy.high
  have cap := toNat_mmapCap
  rw [IsError]
  omega

/-- Where the arena is full nothing wrapped around. -/
theorem serviceable_of_full (tidy : s.Tidy) (file : c.fd ≠ devFbFd)
    (full : ¬ s.globals.mmapCur + pageUp c.len ≤ mmapCap) : s.Serviceable c := by
  have high := tidy.high
  have cap := toNat_mmapCap
  have wide := c.len.toNat_lt
  have size := toNat_pageUp c.len
  rw [UInt64.le_iff_toNat_le, UInt64.toNat_add] at full
  rw [Serviceable, if_neg file, pageCount]
  omega

/-- A mapping that finds room moves the cursor, and answers with where it was or with an error. -/
theorem reply_of_fits (file : c.fd ≠ devFbFd)
    (fits : s.globals.mmapCur + pageUp c.len ≤ mmapCap) {ret : UInt64} {g : Globals} {sp : Space}
    (runs : mmap c.supply c.addr c.len c.flags c.fd c.off s.globals s.space = some (ret, g, sp)) :
    g = s.placed c ∧ (ret = s.globals.mmapCur ∨ ret = enomem) := by
  rw [mmap, if_neg file] at runs
  dsimp only at runs
  rw [place_eq, if_pos fits] at runs
  obtain ⟨⟨backed, sp₁⟩, -, runs⟩ := Option.bind_eq_some_iff.mp runs
  dsimp only at runs
  split at runs
  · obtain ⟨sp₂, -, runs⟩ := Option.bind_eq_some_iff.mp runs
    cases runs
    exact ⟨rfl, .inl rfl⟩
  · cases runs
    exact ⟨rfl, .inr rfl⟩

/-- A call that is refused though there is room has moved the cursor. -/
theorem cursor_moves (tidy : s.Tidy) (file : c.fd ≠ devFbFd)
    (fits : s.globals.mmapCur + pageUp c.len ≤ mmapCap) {ret : UInt64} {g : Globals} {sp : Space}
    (runs : mmap c.supply c.addr c.len c.flags c.fd c.off s.globals s.space = some (ret, g, sp))
    (error : IsError ret) : g.mmapCur ≠ s.globals.mmapCur := by
  intro same
  obtain ⟨rfl, -⟩ := reply_of_fits file fits runs
  have none : pageUp c.len = 0 := by
    have stays : s.globals.mmapCur + pageUp c.len = s.globals.mmapCur + 0 := by
      rw [UInt64.add_zero]
      exact same
    exact UInt64.add_right_inj _ |>.mp stays
  have size : (pageUp c.len).toNat = 0 * 4096 := by
    rw [none]
    rfl
  obtain ⟨sp₁, -, -, runs'⟩ := mmap_of_room tidy file size (by have := tidy.high; omega)
  rw [runs', if_pos (Nat.zero_le _)] at runs
  obtain ⟨sp₂, -, reply⟩ := Option.map_eq_some_iff.mp runs
  cases reply
  exact cursor_not_error tidy error

/-- A mapping is given only where there are frames and tables for all its pages. -/
theorem supplied_of_given (tidy : s.Tidy) (file : c.fd ≠ devFbFd) {ret : UInt64} {g : Globals}
    {sp : Space} (fits : s.globals.mmapCur + pageUp c.len ≤ mmapCap)
    (runs : mmap c.supply c.addr c.len c.flags c.fd c.off s.globals s.space = some (ret, g, sp))
    (given : s.Given c ret sp) : s.Serviceable c := by
  have cap := toNat_mmapCap
  have high := given.high
  have low := tidy.low
  have base := toNat_mmapBase
  have aligned := tidy.aligned
  have ret_eq : ret = s.globals.mmapCur := by
    refine (reply_of_fits file fits runs).2.resolve_right fun error => ?_
    have large := enomem_isError
    rw [← error, IsError] at large
    omega
  subst ret_eq
  have room : s.globals.mmapCur.toNat + pageCount c.len * 4096 ≤ mmapCap.toNat := by
    rw [pageCount]
    omega
  have some := given.some
  obtain ⟨sp₁, -, mapped, runs'⟩ :=
    mmap_of_room tidy file (toNat_pageUp_of_small (by omega)) room
  have frames : pageCount c.len ≤ c.supply.frames := by
    by_contra few
    rw [runs', if_neg few] at runs
    have error : enomem = s.globals.mmapCur := congrArg Prod.fst (Option.some.inj runs)
    exact cursor_not_error tidy (error ▸ enomem_isError)
  rw [Serviceable, if_neg file]
  refine ⟨some, by omega, .inr ⟨frames, ?_⟩⟩
  intro page here
  rw [runs', if_pos frames] at runs
  obtain ⟨sp₂, fills, reply⟩ := Option.map_eq_some_iff.mp runs
  cases reply
  rw [List.mem_range'_1, pageOf, pageCount] at here
  have small : page * 4096 < 2 ^ 64 := by omega
  have address : (UInt64.ofNat (page * 4096)).toNat = page * 4096 :=
    UInt64.toNat_ofNat_of_lt' small
  have there := given.mapped (UInt64.ofNat (page * 4096))
    (UInt64.le_iff_toNat_le.mpr (by omega)) (by omega)
  rw [pageOf, address, Nat.mul_div_cancel _ (by decide), fill_mapped fills, mapped] at there
  obtain before | ⟨-, table⟩ := there
  · have missing := tidy.unmapped page (by rw [pageOf]; omega) (by rw [pageOf]; omega)
    rw [before] at missing
    cases missing
  · exact table

/-- The surface of the framebuffer is not in the arena. -/
theorem serves_surface (device : c.fd = devFbFd) : s.Serves c ↔ s.Serviceable c := by
  rw [Serves, Serviceable, mmap, if_pos device, if_pos device, mmapSurface]
  dsimp only
  cases phys : (if s.globals.lfbPhys = 0 then c.supply.surface else some s.globals.lfbPhys) with
  | none =>
    split at phys
    · next zero =>
      exact iff_of_true ⟨_, _, _, rfl, .inr ⟨enomem_isError, rfl⟩⟩ ⟨zero, phys⟩
    · cases phys
  | some base =>
    refine iff_of_false ?_ ?_
    · rintro ⟨ret, g, sp, runs, given | ⟨error, -⟩⟩
      · have low := given.low
        cases runs
        exact absurd low (by decide)
      · cases runs
        exact absurd error (by decide)
    · rintro ⟨zero, missing⟩
      rw [if_pos zero, missing] at phys
      cases phys

/-- The pages of a length that does not wrap around end in the arena too. -/
theorem room_of_fits (small : s.globals.mmapCur.toNat + pageCount c.len * 4096 < 2 ^ 64)
    (fits : s.globals.mmapCur + pageUp c.len ≤ mmapCap) :
    s.globals.mmapCur.toNat + pageCount c.len * 4096 ≤ mmapCap.toNat := by
  have short : c.len.toNat + 4095 < 2 ^ 64 := by
    rw [pageCount] at small
    omega
  rw [UInt64.le_iff_toNat_le, UInt64.toNat_add, toNat_pageUp_of_small short,
    Nat.mod_eq_of_lt small] at fits
  exact fits

/-- **A call is served or refused as it should be exactly when it can be.** -/
theorem serves_iff (tidy : s.Tidy) (c : MapCall) : s.Serves c ↔ s.Serviceable c := by
  by_cases device : c.fd = devFbFd
  · exact serves_surface device
  · by_cases fits : s.globals.mmapCur + pageUp c.len ≤ mmapCap
    · constructor
      · rintro ⟨ret, g, sp, runs, given | ⟨error, stays⟩⟩
        · exact supplied_of_given tidy device fits runs given
        · exact absurd stays (cursor_moves tidy device fits runs error)
      · intro serviceable
        rw [Serviceable, if_neg device] at serviceable
        obtain ⟨some, small, full | ⟨frames, tables⟩⟩ := serviceable
        · exact absurd (room_of_fits small fits) (Nat.not_le_of_lt full)
        · obtain ⟨sp, runs, given, -⟩ :=
            given_of_room tidy device some (room_of_fits small fits) frames tables
          exact ⟨_, _, sp, runs, .inl given⟩
    · exact iff_of_true ⟨enomem, s.globals, s.space, mmap_of_full device fits,
        .inr ⟨enomem_isError, rfl⟩⟩ (serviceable_of_full tidy device fits)

/-- A call that is served or refused as it should be keeps what holds between calls. -/
theorem Tidy.step (tidy : s.Tidy) (serviceable : s.Serviceable c) : (s.step c).Tidy := by
  rw [Mapper.step]
  by_cases device : c.fd = devFbFd
  · rw [Serviceable, if_pos device] at serviceable
    rw [mmap, if_pos device, mmapSurface]
    dsimp only
    rw [if_pos serviceable.1, serviceable.2]
    dsimp only
    rw [if_pos enomem_isError]
    exact tidy
  · by_cases fits : s.globals.mmapCur + pageUp c.len ≤ mmapCap
    · rw [Serviceable, if_neg device] at serviceable
      obtain ⟨some, small, full | ⟨frames, tables⟩⟩ := serviceable
      · exact absurd (room_of_fits small fits) (Nat.not_le_of_lt full)
      · have room := room_of_fits small fits
        obtain ⟨sp, runs, given, mapped⟩ := given_of_room tidy device some room frames tables
        have aligned := tidy.aligned
        have low := tidy.low
        have short : c.len.toNat + 4095 < 2 ^ 64 := by
          rw [pageCount] at small
          omega
        have cursor : (s.placed c).mmapCur.toNat =
            s.globals.mmapCur.toNat + pageCount c.len * 4096 := by
          rw [placed, UInt64.toNat_add, toNat_pageUp_of_small short, Nat.mod_eq_of_lt small]
        have asked : c.len.toNat ≤ pageCount c.len * 4096 := by
          rw [pageCount]
          omega
        rw [runs]
        dsimp only
        rw [if_neg (cursor_not_error tidy)]
        refine ⟨?_, ?_, ?_, ?_, ?_, tidy.short⟩
        · change (s.placed c).mmapCur.toNat % 4096 = 0
          omega
        · change mmapBase.toNat ≤ (s.placed c).mmapCur.toNat
          omega
        · change (s.placed c).mmapCur.toNat ≤ mmapCap.toNat
          omega
        · intro page above below
          rw [pageOf, cursor] at above
          rw [← Bool.not_eq_true, mapped, List.mem_range'_1]
          have before := tidy.unmapped page (by rw [pageOf]; omega) below
          rw [before, pageOf]
          rintro (here | here)
          · cases here
          · omega
        · intro earlier here
          rw [List.mem_append, List.mem_singleton] at here
          change earlier.1.toNat + earlier.2.toNat ≤ (s.placed c).mmapCur.toNat
          obtain old | rfl := here
          · have behind := tidy.behind earlier old
            omega
          · dsimp only
            omega
    · rw [mmap_of_full device fits]
      dsimp only
      rw [if_pos enomem_isError]
      exact tidy

/-- From a tidy state on, every call is served or refused exactly when every call can be. -/
theorem Tidy.each_serves (tidy : s.Tidy) (calls : List MapCall) :
    Trace.Each Mapper.step s Serves calls ↔ Trace.Each Mapper.step s Serviceable calls :=
  Trace.each_congr tidy (fun _ _ tidy serviceable => tidy.step serviceable)
    (fun _ c tidy => serves_iff tidy c) calls

end Room

instance (s : Mapper) (c : MapCall) : Decidable (s.Serviceable c) :=
  inferInstanceAs (Decidable (if c.fd = devFbFd then _ ∧ _ else _ ∧ _ ∧ (_ ∨ _ ∧ _)))

/-- A process that was given nothing. -/
def start : Mapper := ⟨Globals.start 0, ⟨fun _ => false, []⟩, []⟩

theorem start_fresh : start.Fresh :=
  ⟨rfl, fun _ _ _ => rfl, rfl, fun _ => Nat.two_pow_pos 63⟩

end Mapper

open Mapper

/-- **The arena serves every call of a process exactly when** no call asks for the framebuffer's
surface, for nothing or for what wraps around, and those that find room in the arena find frames and
tables for all their pages. -/
theorem arena_served_iff (s : Mapper) (fresh : s.Fresh) (calls : List MapCall) :
    Trace.Each step s Serves calls ↔ Trace.Each step s Serviceable calls :=
  fresh.tidy.each_serves calls

/-- Two mappings, and one for which there is no room. -/
theorem arena_served_sample : Trace.Each step start Serves
    [⟨⟨2, fun _ => true, none⟩, 0, 5000, 0x22, ~~~0, 0, by decide⟩,
      ⟨⟨1, fun _ => true, none⟩, 0, 1, 0x2, 3, 0, by decide⟩,
      ⟨⟨0, fun _ => true, none⟩, 0, 0x7000000, 0x22, ~~~0, 0, by decide⟩] :=
  (arena_served_iff start start_fresh _).mpr (by decide)

/-- **A mapping of nothing is given**: the length is not looked at. -/
theorem empty_mapping_is_given : ¬ ∀ s : Mapper, s.Fresh → ∀ calls : List MapCall,
    Trace.Each step s Serves calls := by
  intro always
  have served := always start start_fresh [⟨⟨9, fun _ => true, none⟩, 0, 0, 0x22, ~~~0, 0, by decide⟩]
  have serviceable := (start_fresh.tidy.each_serves _).mp served
  revert serviceable
  decide

end RustyPenguin.Linux
