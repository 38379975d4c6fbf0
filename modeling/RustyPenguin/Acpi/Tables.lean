import RustyPenguin.Foundation.Reads

/-!
# The firmware's tables

A table of the firmware starts with a signature and its length. The walk over the root table takes
the number of entries from that length, and the scans of the DSDT look for a name and decode the
package behind it: the sleep types of `\_S5` and `\_S3`, and the figures of a battery.

Each walk is a computation with the offsets it looks at. The length itself is in the header; where a
length is shorter than the header, the number of entries of the root table wraps around. A scan
stops in time for the name, and the package behind the name may lie past the end.
-/

set_option autoImplicit false

namespace RustyPenguin.Acpi

open Reads

/-- The bytes of a table, by offset. -/
abbrev Table := Nat → UInt8

/-- The table at an address. -/
def tableAt (mem : UInt64 → UInt8) (phys : UInt64) : Table := fun o => mem (phys + UInt64.ofNat o)

def rd8 (t : Table) (o : Nat) : Reads UInt8 := look t o

def rd32 (t : Table) (o : Nat) : Reads UInt32 := do
  let b0 ← rd8 t o
  let b1 ← rd8 t (o + 1)
  let b2 ← rd8 t (o + 2)
  let b3 ← rd8 t (o + 3)
  pure (b0.toUInt32 ||| b1.toUInt32 <<< 8 ||| b2.toUInt32 <<< 16 ||| b3.toUInt32 <<< 24)

def rd64 (t : Table) (o : Nat) : Reads UInt64 := do
  let low ← rd32 t o
  let high ← rd32 t (o + 4)
  pure (low.toUInt64 ||| high.toUInt64 <<< 32)

/-- The length a table declares. -/
def declared (t : Table) : UInt32 := (rd32 t 4).value

/-! ## The root table and the FADT -/

/-- The bytes of an entry. -/
def entrySize (xsdt : Bool) : Nat := if xsdt then 8 else 4

def entryAt (t : Table) (xsdt : Bool) (o : Nat) : Reads UInt64 :=
  if xsdt then rd64 t o
  else do
    let ent ← rd32 t o
    pure ent.toUInt64

/-- The number of entries, as the length says. -/
def entryCount (t : Table) (xsdt : Bool) : UInt64 :=
  ((declared t).toUInt64 - 36) / if xsdt then 8 else 4

/-- Look for a table with the signature `want`. The signatures are in the tables that the entries
lead to, and are not looked at in the root table. -/
def findTable (mem : UInt64 → UInt8) (sdt : UInt64) (xsdt : Bool) (want : List UInt8) :
    Reads (Option UInt64) :=
  let t := tableAt mem sdt
  search (fun i => do
    let ent ← entryAt t xsdt ((36 + i * entrySize xsdt) % 2 ^ 64)
    let sig := (List.range 4).map (tableAt mem ent)
    pure (if sig = want then some ent else none)) (entryCount t xsdt).toNat 0

/-- What is taken from the FADT. -/
structure Fadt where
  pm1aCnt : UInt32
  pm1bCnt : UInt32
  facsPhys : UInt64
  dsdt : UInt64
  reset : Option (Bool × UInt64 × UInt8)

/-- A 64-bit field that counts where the table is long enough and the field is not zero. -/
def extended (t : Table) (longer o : Nat) (field : UInt64) : Reads UInt64 :=
  if longer < (declared t).toNat then do
    let wide ← rd64 t o
    pure (if wide ≠ 0 then wide else field)
  else pure field

def readReset (t : Table) (flags : UInt32) : Reads (Option (Bool × UInt64 × UInt8)) :=
  if 129 < (declared t).toNat ∧ flags &&& ((1 : UInt32) <<< 10) ≠ 0 then do
    let addrSpace ← rd8 t 116
    let addr ← rd64 t 120
    let val ← rd8 t 128
    pure (if addr ≠ 0 then some (addrSpace == 1, addr, val) else none)
  else pure none

def readFadt (t : Table) : Reads Fadt := do
  let pm1aCnt ← rd32 t 64
  let pm1bCnt ← rd32 t 68
  let facs ← rd32 t 36
  let facsPhys ← extended t 140 132 facs.toUInt64
  let low ← rd32 t 40
  let dsdt ← extended t 148 140 low.toUInt64
  let flags ← rd32 t 112
  let reset ← readReset t flags
  pure { pm1aCnt, pm1bCnt, facsPhys, dsdt, reset }

/-! ## Names and packages -/

/-- Whether the bytes at an offset are these, compared one by one. -/
def nameAt (t : Table) : Nat → List UInt8 → Reads Bool
  | _, [] => pure true
  | i, c :: name => do
    if (← rd8 t i) = c then nameAt t (i + 1) name else pure false

/-- The first place from `p` on with the byte, or `p + guard`. -/
def seek (t : Table) (want : UInt8) : (guard p : Nat) → Reads Nat
  | 0, p => pure p
  | guard + 1, p => do
    if (← rd8 t p) = want then pure p else seek t want guard (p + 1)

/-- Decode a tiny AML integer: its value, and the bytes it takes. -/
def amlInt (t : Table) (p : Nat) : Reads (UInt16 × Nat) := do
  let b ← rd8 t p
  if b = 0x00 then pure (0, 1)
  else if b = 0x01 then pure (1, 1)
  else if b = 0x0A then do
    let x ← rd8 t (p + 1)
    pure (x.toUInt16, 2)
  else if b = 0x0B then do
    let x ← rd32 t (p + 1)
    pure (x.toUInt16 &&& 0xffff, 3)
  else pure (b.toUInt16, 1)

/-- The two integers of the package behind a sleep name. -/
def sleepPackage (t : Table) (p : Nat) : Reads (Option (UInt16 × UInt16)) := do
  let p ← seek t 0x12 4 p
  if (← rd8 t p) ≠ 0x12 then pure none
  else do
    let pl ← rd8 t (p + 1)
    let p := p + 1 + (1 + (pl >>> 6).toNat) + 1
    let a ← amlInt t p
    let b ← amlInt t (p + a.2)
    pure (some (a.1, b.1))

/-- `b"_S5_"` and `b"_S3_"`. -/
def sleepName (state : UInt8) : List UInt8 := [0x5F, 0x53, state, 0x5F]

/-- One step of a scan for a name of four letters: the scan ends at the name, with what is found
behind it. -/
def namedStep {α : Type} (t : Table) (name : List UInt8) (behind : Nat → Reads (Option α)) (i : Nat) :
    Reads (Option (Option α)) := do
  if ← nameAt t i name then do
    let found ← behind (i + 4)
    pure (some found)
  else pure none

/-- The sleep types of a state: `parse_s5` and `parse_s3` are this scan. -/
def parseSleep (t : Table) (state : UInt8) : Reads (Option (UInt16 × UInt16)) := do
  let types ← search (namedStep t (sleepName state) (sleepPackage t))
    ((declared t).toNat - 5 - 36) 36
  pure types.join

def parseS5 (t : Table) : Reads (Option (UInt16 × UInt16)) := parseSleep t 0x35

def parseS3 (t : Table) : Reads (Option (UInt16 × UInt16)) := parseSleep t 0x33

/-! ## The battery -/

/-- The first integer of a package of at least `least` elements that is returned behind a name. -/
def returnedPackage (t : Table) (least : UInt8) (p : Nat) : Reads (Option Nat) := do
  let p ← seek t 0xA4 16 p
  if (← rd8 t p) ≠ 0xA4 then pure none
  else if (← rd8 t (p + 1)) ≠ 0x12 then pure none
  else do
    let pl ← rd8 t (p + 2)
    let p := p + 2 + (1 + (pl >>> 6).toNat)
    let num ← rd8 t p
    pure (if num < least then none else some (p + 1))

/-- Decode the integers of a package that is returned behind a name, if there is one. -/
def inReturned {α : Type} (t : Table) (least : UInt8) (p : Nat) (ints : Nat → Reads (Option α)) :
    Reads (Option α) := do
  match ← returnedPackage t least p with
  | none => pure none
  | some p => ints p

/-- The design capacity in a `_BIF` package, if it is set. -/
def bifPackage (t : Table) (p : Nat) : Reads (Option UInt32) :=
  inReturned t 2 p fun p => do
    let unit ← amlInt t p
    let cap ← amlInt t (p + unit.2)
    pure (if cap.1 > 0 then some cap.1.toUInt32 else none)

/-- The state, the remaining capacity and the voltage in a `_BST` package. -/
def bstPackage (t : Table) (p : Nat) : Reads (Option (UInt8 × UInt32 × UInt16)) :=
  inReturned t 4 p fun p => do
    let state ← amlInt t p
    let rate ← amlInt t (p + state.2)
    let rem ← amlInt t (p + state.2 + rate.2)
    let volt ← amlInt t (p + state.2 + rate.2 + rem.2)
    pure (some (state.1.toUInt8, rem.1.toUInt32, volt.1))

/-- `parse_bif` and `parse_bst`: the scan of at most 4096 bytes from `start` on. -/
def parseNamed {α : Type} (t : Table) (name : List UInt8) (behind : Nat → Reads (Option α))
    (start : Nat) : Reads (Option α) := do
  let stop := min (start + 4096) (declared t).toNat
  let found ← search (namedStep t name behind) (stop - 6 - start) start
  pure found.join

/-- `b"_BIF"`. -/
def bifName : List UInt8 := [0x5F, 0x42, 0x49, 0x46]

/-- `b"_BST"`. -/
def bstName : List UInt8 := [0x5F, 0x42, 0x53, 0x54]

def parseBif (t : Table) (start : Nat) : Reads (Option UInt32) :=
  parseNamed t bifName (bifPackage t) start

def parseBst (t : Table) (start : Nat) : Reads (Option (UInt8 × UInt32 × UInt16)) :=
  parseNamed t bstName (bstPackage t) start

/-- The names of battery devices: `BAT0`, `CMB0`, `BATT` and `BAT1`. -/
def batteryNames : List (List UInt8) :=
  [[0x42, 0x41, 0x54, 0x30], [0x43, 0x4D, 0x42, 0x30], [0x42, 0x41, 0x54, 0x54],
    [0x42, 0x41, 0x54, 0x31]]

/-- What is found out about a battery that is there. -/
structure Battery where
  design : Option UInt32
  status : Option (UInt8 × UInt32 × UInt16)

/-- One step of the scan for a battery device. -/
def batteryStep (t : Table) (i : Nat) : Reads (Option Battery) := do
  let b0 ← rd8 t i
  let b1 ← rd8 t (i + 1)
  let b2 ← rd8 t (i + 2)
  let b3 ← rd8 t (i + 3)
  if [b0, b1, b2, b3] ∈ batteryNames then do
    let design ← parseBif t i
    let status ← parseBst t i
    pure (some { design, status })
  else pure none

def parseBattery (t : Table) : Reads (Option Battery) :=
  search (batteryStep t) ((declared t).toNat - 8 - 36) 36

end RustyPenguin.Acpi
