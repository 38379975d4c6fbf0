import RustyPenguin.Foundation.Buffer

/-!
# Block devices

The filesystem core is generic over a `BlockDev`: a device answers each read and
write of whole sectors with a flag, and may do anything else. Three things are
said about devices here, each as its own layer over the two calls.

* `LawfulBlockDev` is a device that has contents: an honoured write stores what it
  was given, an honoured read returns what is stored, a refused read leaves the
  buffer as it was, and no request touches a sector outside its range. A refused
  write may leave anything in its own range.
* `Recorder` is a device that keeps the list of the requests it was asked, with
  the outcome of each. A property of a run such as "every write was honoured" or
  "no write left the region" is a property of that list.
* `Issues R` relates two device states when the second is reached from the first by
  requests whose writes all lie in `R`. Each operation of the filesystem is shown
  once to issue only such requests; that nothing outside `R` changed
  (`Issues.content_eq`) and what was recorded (`Issues.log_append`) then follow.
-/

set_option autoImplicit false

namespace RustyPenguin.Rpfs

open Buffer

/-- Bytes in a sector. -/
def sector : Nat := 512

theorem sector_pos : 0 < sector := by
  simp only [sector]
  omega

/-- A 512-byte block device: `read` and `write` operate on `count` sectors at `lba`
and answer whether the request was honoured. -/
class BlockDev (D : Type) where
  read : D → (lba count : Nat) → (buf : List UInt8) → Bool × List UInt8 × D
  write : D → (lba count : Nat) → (buf : List UInt8) → Bool × D
  read_length : ∀ dev lba count buf, (read dev lba count buf).2.1.length = buf.length

/-! ## Devices with contents -/

/-- The bytes of `n` consecutive sectors. -/
def extent (content : Nat → List UInt8) (lba : Nat) : Nat → List UInt8
  | 0 => []
  | n + 1 => content lba ++ extent content (lba + 1) n

/-- A device that stores what an honoured write gives it. -/
class LawfulBlockDev (D : Type) extends BlockDev D where
  content : D → Nat → List UInt8
  content_length : ∀ dev x, (content dev x).length = sector
  content_read : ∀ dev lba count buf, content (read dev lba count buf).2.2 = content dev
  read_honoured : ∀ dev lba count buf, count * sector ≤ buf.length →
    (read dev lba count buf).1 = true →
      (read dev lba count buf).2.1 = blit buf 0 (extent (content dev) lba count)
  read_refused : ∀ dev lba count buf, (read dev lba count buf).1 = false →
    (read dev lba count buf).2.1 = buf
  write_honoured : ∀ dev lba count buf, buf.length = count * sector →
    (write dev lba count buf).1 = true →
      extent (content (write dev lba count buf).2) lba count = buf
  write_outside : ∀ dev lba count buf x, x < lba ∨ lba + count ≤ x →
    content (write dev lba count buf).2 x = content dev x

section Extent

variable {content content' : Nat → List UInt8}

theorem length_extent (whole : ∀ x, (content x).length = sector) :
    ∀ lba n, (extent content lba n).length = n * sector
  | _, 0 => by simp [extent]
  | lba, n + 1 => by
      rw [extent, List.length_append, whole, length_extent whole (lba + 1) n]
      simp only [sector]
      omega

/-- Sectors that agree one by one give the same bytes. -/
theorem extent_congr :
    ∀ {lba n : Nat}, (∀ x, lba ≤ x → x < lba + n → content' x = content x) →
      extent content' lba n = extent content lba n
  | _, 0, _ => rfl
  | lba, n + 1, same => by
      have rest : ∀ x, lba + 1 ≤ x → x < lba + 1 + n → content' x = content x :=
        fun x low high => same x (by omega) (by omega)
      rw [extent, extent, same lba (by omega) (by omega), extent_congr rest]

theorem extent_append (content : Nat → List UInt8) :
    ∀ lba n m, extent content lba n ++ extent content (lba + n) m = extent content lba (n + m)
  | lba, 0, m => by simp [extent]
  | lba, n + 1, m => by
      have rest := extent_append content (lba + 1) n m
      rw [Nat.add_right_comm n 1 m, extent, extent, ← rest, List.append_assoc]
      congr 3
      omega

/-- The bytes of some of the sectors of an extent. -/
theorem extent_sub (whole : ∀ x, (content x).length = sector) {lba n k m : Nat}
    (inside : k + m ≤ n) :
    extent content (lba + k) m = slice (extent content lba n) (k * sector) (m * sector) := by
  have front := length_extent whole lba k
  have middle := length_extent whole (lba + k) m
  obtain ⟨rest, rfl⟩ := Nat.exists_eq_add_of_le inside
  rw [← extent_append content lba (k + m) rest, ← extent_append content lba k m,
    List.append_assoc, slice, ← front, List.drop_left, ← middle, List.take_left]

/-- One sector of an extent. -/
theorem slice_extent (whole : ∀ x, (content x).length = sector) :
    ∀ {lba n k : Nat}, k < n →
      slice (extent content lba n) (k * sector) sector = content (lba + k)
  | lba, n + 1, 0, _ => by
      have head := whole lba
      simp [slice, extent, ← head]
  | lba, n + 1, k + 1, inside => by
      have rest : slice (extent content (lba + 1) n) (k * sector) sector = content (lba + 1 + k) :=
        slice_extent whole (by omega)
      have skip : (k + 1) * sector = (content lba).length + k * sector := by
        rw [whole, Nat.succ_mul, Nat.add_comm]
      rw [slice, extent, skip, ← List.drop_drop, List.drop_left]
      rw [slice] at rest
      rw [rest]
      congr 1
      omega

/-- An extent is determined by its sectors: two equal extents agree sector by sector. -/
theorem content_eq_of_extent (whole : ∀ x, (content x).length = sector)
    (whole' : ∀ x, (content' x).length = sector) {lba lba' n k : Nat} (inside : k < n)
    (same : extent content' lba' n = extent content lba n) :
    content' (lba' + k) = content (lba + k) := by
  rw [← slice_extent whole inside, ← slice_extent whole' inside, same]

end Extent

/-! ## Requests -/

/-- A request a device was asked, with its outcome. -/
structure Request where
  isWrite : Bool
  lba : Nat
  count : Nat
  honoured : Bool
  deriving DecidableEq, Repr

section Issues

variable {D : Type} [BlockDev D] {R R' : Nat → Nat → Prop}

/-- One request: any read, or a write of whole sectors in `R`. -/
inductive Issue (R : Nat → Nat → Prop) : D → D → Prop where
  | read (dev : D) (lba count : Nat) (buf : List UInt8) :
      Issue R dev (BlockDev.read dev lba count buf).2.2
  | write (dev : D) (lba count : Nat) (buf : List UInt8) (whole : buf.length = count * sector)
      (within : R lba count) : Issue R dev (BlockDev.write dev lba count buf).2

/-- The second device state is reached by requests whose writes all lie in `R`. -/
def Issues (R : Nat → Nat → Prop) : D → D → Prop := Relation.ReflTransGen (Issue R)

theorem Issues.refl (dev : D) : Issues R dev dev := Relation.ReflTransGen.refl

theorem Issues.trans {dev dev' dev'' : D} (first : Issues R dev dev')
    (second : Issues R dev' dev'') : Issues R dev dev'' := Relation.ReflTransGen.trans first second

theorem Issues.of_read (dev : D) (lba count : Nat) (buf : List UInt8) :
    Issues R dev (BlockDev.read dev lba count buf).2.2 :=
  Relation.ReflTransGen.single (Issue.read dev lba count buf)

theorem Issues.of_write {dev : D} {lba count : Nat} {buf : List UInt8}
    (whole : buf.length = count * sector) (within : R lba count) :
    Issues R dev (BlockDev.write dev lba count buf).2 :=
  Relation.ReflTransGen.single (Issue.write dev lba count buf whole within)

theorem Issues.mono (wider : ∀ lba count, R lba count → R' lba count) {dev dev' : D}
    (issued : Issues R dev dev') : Issues R' dev dev' := by
  induction issued with
  | refl => exact Issues.refl _
  | tail _ last ih =>
      refine ih.trans ?_
      cases last with
      | read lba count buf => exact Issues.of_read _ lba count buf
      | write lba count buf whole within =>
          exact Issues.of_write whole (wider lba count within)

/-- Requests whatever they are. -/
theorem Issues.any {dev dev' : D} (issued : Issues R dev dev') :
    Issues (fun _ _ => True) dev dev' := issued.mono fun _ _ _ => trivial

end Issues

/-- A sector that no write of `R` covers keeps its contents. -/
theorem Issues.content_eq {D : Type} [LawfulBlockDev D] {R : Nat → Nat → Prop} {dev dev' : D}
    (issued : Issues R dev dev') {x : Nat}
    (missed : ∀ lba count, R lba count → x < lba ∨ lba + count ≤ x) :
    LawfulBlockDev.content dev' x = LawfulBlockDev.content dev x := by
  induction issued with
  | refl => rfl
  | tail _ last ih =>
      rw [← ih]
      cases last with
      | read lba count buf => rw [LawfulBlockDev.content_read]
      | write lba count buf _ within =>
          exact LawfulBlockDev.write_outside _ lba count buf x (missed lba count within)

/-- The bytes of sectors that no write of `R` covers are unchanged. -/
theorem Issues.extent_eq {D : Type} [LawfulBlockDev D] {R : Nat → Nat → Prop} {dev dev' : D}
    (issued : Issues R dev dev') {lo n : Nat}
    (missed : ∀ lba count, R lba count → lba + count ≤ lo ∨ lo + n ≤ lba) :
    extent (LawfulBlockDev.content dev') lo n = extent (LawfulBlockDev.content dev) lo n := by
  refine extent_congr fun x low high => issued.content_eq fun lba count within => ?_
  have := missed lba count within
  omega

/-! ## The recorder -/

/-- A device together with the requests it was asked, oldest first. -/
structure Recorder (D : Type) where
  dev : D
  log : List Request

instance (D : Type) [BlockDev D] : BlockDev (Recorder D) where
  read r lba count buf :=
    let answer := BlockDev.read r.dev lba count buf
    (answer.1, answer.2.1, ⟨answer.2.2, r.log ++ [⟨false, lba, count, answer.1⟩]⟩)
  write r lba count buf :=
    let answer := BlockDev.write r.dev lba count buf
    (answer.1, ⟨answer.2, r.log ++ [⟨true, lba, count, answer.1⟩]⟩)
  read_length r lba count buf := BlockDev.read_length r.dev lba count buf

instance (D : Type) [LawfulBlockDev D] : LawfulBlockDev (Recorder D) where
  content r := LawfulBlockDev.content r.dev
  content_length r := LawfulBlockDev.content_length r.dev
  content_read r := LawfulBlockDev.content_read r.dev
  read_honoured r := LawfulBlockDev.read_honoured r.dev
  read_refused r := LawfulBlockDev.read_refused r.dev
  write_honoured r := LawfulBlockDev.write_honoured r.dev
  write_outside r := LawfulBlockDev.write_outside r.dev

/-- The requests recorded in `r'` beyond those of `r`. -/
def Recorder.since {D : Type} (r r' : Recorder D) : List Request := r'.log.drop r.log.length

theorem Recorder.mem_log_of_since {D : Type} {r r' : Recorder D} {q : Request}
    (member : q ∈ r.since r') : q ∈ r'.log := List.mem_of_mem_drop member

/-- Every request so far was honoured. -/
def Recorder.AllHonoured {D : Type} (r : Recorder D) : Prop := ∀ q ∈ r.log, q.honoured = true

section Recorded

variable {D : Type} [BlockDev D] {R : Nat → Nat → Prop}

theorem Recorder.log_read (r : Recorder D) (lba count : Nat) (buf : List UInt8) :
    (BlockDev.read r lba count buf).2.2.log =
      r.log ++ [⟨false, lba, count, (BlockDev.read r lba count buf).1⟩] := rfl

theorem Recorder.log_write (r : Recorder D) (lba count : Nat) (buf : List UInt8) :
    (BlockDev.write r lba count buf).2.log =
      r.log ++ [⟨true, lba, count, (BlockDev.write r lba count buf).1⟩] := rfl

/-- The log only grows, and every write in what it grew by lies in `R`. -/
theorem Issues.log_append {r r' : Recorder D} (issued : Issues R r r') :
    ∃ more, r'.log = r.log ++ more ∧ ∀ q ∈ more, q.isWrite = true → R q.lba q.count := by
  induction issued with
  | refl => exact ⟨[], by simp, by simp⟩
  | tail _ last ih =>
      obtain ⟨more, same, within⟩ := ih
      cases last with
      | read lba count buf =>
          refine ⟨more ++ [_], by rw [Recorder.log_read, same, List.append_assoc], ?_⟩
          intro q member isWrite
          rcases List.mem_append.mp member with old | new
          · exact within q old isWrite
          · rw [List.mem_singleton.mp new] at isWrite
            cases isWrite
      | write lba count buf _ inside =>
          refine ⟨more ++ [_], by rw [Recorder.log_write, same, List.append_assoc], ?_⟩
          intro q member isWrite
          rcases List.mem_append.mp member with old | new
          · exact within q old isWrite
          · rw [List.mem_singleton.mp new]
            exact inside

theorem Issues.mem_log {r r' : Recorder D} (issued : Issues R r r') {q : Request}
    (member : q ∈ r.log) : q ∈ r'.log := by
  obtain ⟨more, same, -⟩ := issued.log_append
  rw [same]
  exact List.mem_append_left _ member

theorem Issues.log_eq {r r' : Recorder D} (issued : Issues R r r') :
    r'.log = r.log ++ r.since r' := by
  obtain ⟨more, same, -⟩ := issued.log_append
  rw [Recorder.since, same, List.drop_left]

/-- What was recorded stays recorded. -/
theorem Issues.since_right {r r' r'' : Recorder D} (issued : Issues R r r')
    (later : Issues R r' r'') {q : Request} (member : q ∈ r.since r') : q ∈ r.since r'' := by
  rw [Recorder.since, later.log_eq, issued.log_eq, List.append_assoc, List.drop_left]
  exact List.mem_append_left _ member

/-- What a later stretch recorded was recorded since the start. -/
theorem Issues.since_left {r r' r'' : Recorder D} (issued : Issues R r r')
    (later : Issues R r' r'') {q : Request} (member : q ∈ r'.since r'') : q ∈ r.since r'' := by
  rw [Recorder.since, later.log_eq, issued.log_eq, List.append_assoc, List.drop_left]
  exact List.mem_append_right _ member

/-- Every write since then lies in `R`. -/
theorem Issues.since_within {r r' : Recorder D} (issued : Issues R r r') {q : Request}
    (member : q ∈ r.since r') (isWrite : q.isWrite = true) : R q.lba q.count := by
  obtain ⟨more, same, within⟩ := issued.log_append
  rw [Recorder.since, same, List.drop_left] at member
  exact within q member isWrite

/-- If everything was honoured in the end, everything was honoured before. -/
theorem Issues.allHonoured {r r' : Recorder D} (issued : Issues R r r')
    (honoured : r'.AllHonoured) : r.AllHonoured := fun q member =>
  honoured q (issued.mem_log member)

end Recorded

/-! ## A RAM disk that refuses what its script says -/

/-- A RAM-backed device. The `i`-th request it is asked is honoured when `script i`
says so; a refused request changes nothing but the count. -/
structure ScriptedDisk where
  cells : Nat → List UInt8
  whole : ∀ x, (cells x).length = sector
  script : Nat → Bool
  asked : Nat

/-- The sectors after `count` of them from `lba` on are given the bytes of `buf`. -/
def storeSectors (cells : Nat → List UInt8) (lba count : Nat) (buf : List UInt8) :
    Nat → List UInt8 := fun x =>
  if lba ≤ x ∧ x < lba + count ∧ buf.length = count * sector then
    slice buf ((x - lba) * sector) sector
  else cells x

theorem length_storeSectors {cells : Nat → List UInt8} (whole : ∀ x, (cells x).length = sector)
    (lba count : Nat) (buf : List UInt8) (x : Nat) :
    (storeSectors cells lba count buf x).length = sector := by
  rw [storeSectors]
  split
  · rename_i inside
    refine length_slice ?_
    obtain ⟨low, high, size⟩ := inside
    rw [size]
    calc (x - lba) * sector + sector = (x - lba + 1) * sector := by rw [Nat.succ_mul]
      _ ≤ count * sector := Nat.mul_le_mul_right _ (by omega)
  · exact whole x

/-- Sectors cut from a buffer, laid end to end, give the buffer back. -/
theorem extent_slices (content : Nat → List UInt8) (buf : List UInt8) :
    ∀ (lba first n : Nat), (∀ k < n, content (lba + k) = slice buf ((first + k) * sector) sector) →
      extent content lba n = slice buf (first * sector) (n * sector)
  | _, _, 0, _ => by simp [extent, slice]
  | lba, first, n + 1, cut => by
      have rest := extent_slices content buf (lba + 1) (first + 1) n fun k inside => by
        have := cut (k + 1) (by omega)
        rw [Nat.add_assoc lba, Nat.add_comm 1 k, this, Nat.add_assoc first, Nat.add_comm 1 k]
      rw [extent, rest, show content lba = slice buf (first * sector) sector from cut 0 (by omega),
        Nat.succ_mul first, slice_append_slice, Nat.succ_mul n, Nat.add_comm sector]

theorem extent_storeSectors (cells : Nat → List UInt8) {lba count : Nat} {buf : List UInt8}
    (size : buf.length = count * sector) :
    extent (storeSectors cells lba count buf) lba count = buf := by
  have cut := extent_slices (storeSectors cells lba count buf) buf lba 0 count fun k inside => by
    rw [storeSectors, if_pos ⟨by omega, by omega, size⟩]
    congr 2
    omega
  rw [cut, Nat.zero_mul, ← size, slice_zero_length]

/-- The bytes an honoured read puts in a buffer: as many as there are and fit. -/
theorem length_read {cells : Nat → List UInt8} (lba count : Nat) (buf : List UInt8) :
    (blit buf 0 ((extent cells lba count).take buf.length)).length = buf.length :=
  length_blit (by rw [List.length_take]; omega)

instance : LawfulBlockDev ScriptedDisk where
  read disk lba count buf :=
    (disk.script disk.asked,
      if disk.script disk.asked then blit buf 0 ((extent disk.cells lba count).take buf.length)
      else buf,
      { disk with asked := disk.asked + 1 })
  write disk lba count buf :=
    (disk.script disk.asked,
      { disk with
        asked := disk.asked + 1
        cells := if disk.script disk.asked then storeSectors disk.cells lba count buf else disk.cells
        whole := by
          split
          · exact length_storeSectors disk.whole lba count buf
          · exact disk.whole })
  read_length disk lba count buf := by
    dsimp only
    split
    · exact length_read lba count buf
    · rfl
  content disk := disk.cells
  content_length disk := disk.whole
  content_read _ _ _ _ := rfl
  read_honoured disk lba count buf fits honoured := by
    have served : disk.script disk.asked = true := honoured
    dsimp only
    rw [if_pos served, List.take_of_length_le]
    rw [length_extent disk.whole]
    exact fits
  read_refused disk lba count buf refused := if_neg (Bool.eq_false_iff.mp refused)
  write_honoured disk lba count buf size honoured := by
    have served : disk.script disk.asked = true := honoured
    dsimp only
    rw [if_pos served]
    exact extent_storeSectors disk.cells size
  write_outside disk lba count buf x outside := by
    dsimp only
    split
    · exact if_neg (by omega)
    · rfl

namespace ScriptedDisk

/-- A zeroed disk that follows the given script. -/
def blank (script : Nat → Bool) : ScriptedDisk :=
  ⟨fun _ => List.replicate sector 0, fun _ => List.length_replicate, script, 0⟩

/-- What is recorded of a scripted disk is what its script says. -/
theorem since_script {R : Nat → Nat → Prop} {r r' : Recorder ScriptedDisk} (issued : Issues R r r') :
    r'.dev.script = r.dev.script ∧ ∀ q ∈ r.since r', ∃ k, q.honoured = r.dev.script k := by
  induction issued with
  | refl =>
      refine ⟨rfl, fun q member => ?_⟩
      rw [Recorder.since, List.drop_length] at member
      cases member
  | @tail r₁ r₂ first last ih =>
      obtain ⟨same, recorded⟩ := ih
      have grown := Issues.log_eq first
      have more : ∃ q, r₂.log = r₁.log ++ [q] ∧ q.honoured = r₁.dev.script r₁.dev.asked ∧
          r₂.dev.script = r₁.dev.script := by
        cases last with
        | read lba count buf => exact ⟨_, rfl, rfl, rfl⟩
        | write lba count buf => exact ⟨_, rfl, rfl, rfl⟩
      obtain ⟨new, log, answer, script⟩ := more
      refine ⟨script.trans same, fun q member => ?_⟩
      rw [Recorder.since, log, grown, List.append_assoc, List.drop_left] at member
      rcases List.mem_append.mp member with old | last
      · exact recorded q old
      · rw [List.mem_singleton.mp last]
        exact ⟨r₁.dev.asked, answer.trans (congrFun same _)⟩

end ScriptedDisk

end RustyPenguin.Rpfs
