import EspushW60x.Protoframe
import EspushW60x.Lib.Powered
import EspushW60x.Lib.Nor

/-!
# `fal_flash.c`, `fal_partition.c` and the flash port

The flash abstraction layer: devices, the partition table that is looked for on a
device, and reads, writes and erasures relative to a partition.

`FlashEnv` has what comes from the chip and its driver. An erase or a write succeeds,
fails, or is the one in which power is lost; in the last two cases the cells it was to
change are left with any content. A program under a power cut stops.
-/

namespace EspushW60x

open Lib

/-! ## The chip -/

/-- What becomes of an erase or a write. `found i` is what is in the `i`-th of its cells
afterwards. -/
inductive Fate
  | done
  | failed (found : Nat → UInt8)
  | cut (found : Nat → UInt8)

structure Chip where
  cells : Nor.Cells
  /-- The number of erases and writes so far. -/
  ops : Nat

/-- An erase or a write of the `n` cells from `a` on, which leaves `after` when it
succeeds and returns `rc`. -/
def chipOp (fate : Nat → Fate) (a : Int) (n : Nat) (after : Nor.Cells → Nor.Cells) (rc : Int) :
    Powered Chip Int := fun c =>
  match fate c.ops with
  | .done => (some rc, ⟨after c.cells, c.ops + 1⟩)
  | .failed found => (some (-1), ⟨Nor.update c.cells a n found, c.ops + 1⟩)
  | .cut found => (none, ⟨Nor.update c.cells a n found, c.ops + 1⟩)

/-- The chip and its driver, with what the code relies on: a read finds the cells, a write
can only clear bits, and an erase takes whole sectors. -/
structure FlashEnv where
  /-- `wm_flash_total` -/
  total : Nat
  /-- `wm_flash_blksize`, the size of a sector -/
  blkSize : Nat
  blkSize_pos : 0 < blkSize
  /-- `wm_flash_addr` -/
  addr : Nat
  /-- What becomes of the `n`-th erase or write. -/
  fate : Nat → Fate
  /-- `wm_flash_read`: the return code and the bytes. -/
  wmFlashRead : Chip → Int → Nat → Int × Bytes
  wmFlashWrite : Int → Bytes → Powered Chip Int
  wmFlashErase : Int → Nat → Powered Chip Int
  read_cells : ∀ c offset size, wmFlashRead c offset size = (↑size, Nor.read c.cells offset size)
  write_programs : ∀ offset buf, wmFlashWrite offset buf =
    chipOp fate offset buf.length (fun m => Nor.program m offset buf) buf.length
  erase_sectors : ∀ offset size, wmFlashErase offset size =
    chipOp fate (Nor.sectorStart blkSize offset) (Nor.sectorSpan blkSize offset size)
      (fun m => Nor.erase blkSize m offset size) size
  /-- Is the buffer for one entry of the partition table granted? -/
  itemGranted : Bool
  /-- The number of entries the heap has room for. -/
  tableRoom : Nat
  /-- What a word on the stack holds before anything is stored in it. -/
  stale : Bytes
  stale_length : stale.length = 4

/-! ## `fal_flash_port.c` and `fal_flash.c` -/

structure FalFlashDev where
  name : Bytes
  addr : Nat
  len : Nat
  blkSize : Nat
  /-- What the functions in `ops` add to an offset. -/
  base : Int
deriving DecidableEq, Repr

def FalFlashDev.read (d : FalFlashDev) (e : FlashEnv) (c : Chip) (offset : Int) (size : Nat) :
    Int × Bytes :=
  e.wmFlashRead c (offset + d.base) size

def FalFlashDev.write (d : FalFlashDev) (e : FlashEnv) (offset : Int) (buf : Bytes) :
    Powered Chip Int :=
  e.wmFlashWrite (offset + d.base) buf

def FalFlashDev.erase (d : FalFlashDev) (e : FlashEnv) (offset : Int) (size : Nat) :
    Powered Chip Int :=
  e.wmFlashErase (offset + d.base) size

/-- `w60x_onchip` after `init`. -/
def w60xOnchip (e : FlashEnv) : FalFlashDev :=
  ⟨ascii "w60x_onchip", e.addr, e.total, e.blkSize, 0⟩

/-- `nor_flash0` after `nor_init`: the second half of a chip of 2 MiB, read and written
with `chip_read`, `chip_write` and `chip_erase`. -/
def norFlash0 (e : FlashEnv) : FalFlashDev :=
  if e.total = 0x200000 then
    ⟨ascii "norflash", 0, e.total - 0x100000, e.blkSize, 0x100000⟩
  else ⟨ascii "norflash", 0, 0, 0, 0⟩

/-- `device_table` after `fal_flash_init`. -/
def deviceTable (e : FlashEnv) : List FalFlashDev := [w60xOnchip e, norFlash0 e]

def falDevNameMax : Nat := 24

/-- `strncmp(a, b, n)` finds no difference. -/
def strncmpEq (a b : Bytes) (n : Nat) : Bool := cString (a.take n) = cString (b.take n)

def falFlashDeviceFind (e : FlashEnv) (name : Bytes) : Option FalFlashDev :=
  (deviceTable e).find? fun d => strncmpEq name d.name falDevNameMax

/-! ## `fal_partition.c` -/

/-- `FAL_PART_MAGIC_WROD` -/
def falPartMagicWrod : Nat := 0x45503130

/-- `FAL_PART_TABLE_END_OFFSET` -/
def falPartTableEndOffset : Nat := 65536

/-- `sizeof(struct fal_partition)` -/
def tableItemSize : Nat := 64

structure FalPartition where
  magicWord : Nat
  name : Bytes
  flashName : Bytes
  offset : Int
  len : Nat
  reserved : Nat
deriving DecidableEq, Repr

/-- A 32-bit number as a `long`. -/
def toLong (n : Nat) : Int := if n < 0x80000000 then n else n - 0x100000000

/-- The fields of a `struct fal_partition` in memory; a name is the string from its
field on. -/
def FalPartition.ofBytes (item : Bytes) : FalPartition where
  magicWord := ofLe32 item
  name := cString (item.drop 4)
  flashName := cString (item.drop 28)
  offset := toLong (ofLe32 (item.drop 52))
  len := ofLe32 (item.drop 56)
  reserved := ofLe32 (item.drop 60)

/-- The first loop of `fal_partition_init`: from the offset down to 0. -/
def findTableFrom (e : FlashEnv) (dev : FalFlashDev) (c : Chip) : Nat → Option Nat
  | 0 => if ofLe32 (dev.read e c 0 4).2 = falPartMagicWrod then some 0 else none
  | partTableOffset + 1 =>
    if ofLe32 (dev.read e c (partTableOffset + 1 : Nat) 4).2 = falPartMagicWrod then
      some (partTableOffset + 1)
    else findTableFrom e dev c partTableOffset

/-- The second loop of `fal_partition_init`, with `tableNum` entries loaded and room for
as many as the first argument says. `none` when the heap is exhausted. -/
def loadTableFrom (e : FlashEnv) (dev : FalFlashDev) (c : Chip) (partTableOffset : Nat) :
    Nat → Nat → Option (List FalPartition)
  | room, tableNum =>
    let newPart := (dev.read e c (partTableOffset - (tableItemSize * tableNum : Nat)) tableItemSize).2
    if ofLe32 newPart ≠ falPartMagicWrod then some []
    else
      match room with
      | 0 => none
      | room + 1 => do
        let rest ← loadTableFrom e dev c partTableOffset room (tableNum + 1)
        return FalPartition.ofBytes newPart :: rest

/-- The last loop of `fal_partition_init`: the device exists and the partition begins
on it. -/
def FalPartition.check (e : FlashEnv) (p : FalPartition) : Bool :=
  match falFlashDeviceFind e p.flashName with
  | none => false
  | some dev => p.offset < dev.len

/-- The partition table; empty when the initialisation failed. -/
def falPartitionInit (e : FlashEnv) (c : Chip) : List FalPartition :=
  match falFlashDeviceFind e (ascii "w60x_onchip") with
  | none => []
  | some dev =>
    if falPartTableEndOffset ≥ dev.len then []
    else if e.itemGranted = false then []
    else
      match findTableFrom e dev c falPartTableEndOffset with
      | none => []
      | some partTableOffset =>
        match loadTableFrom e dev c partTableOffset e.tableRoom 0 with
        | none => []
        | some table => if table.all (FalPartition.check e) then table else []

/-- A sum of two 32-bit numbers in 32 bits. -/
def add32 (a b : Nat) : Nat := (a + b) % 0x100000000

/-- `part->offset + addr`, as the `long` that the functions in `ops` take: the sum is
made in 32 bits. -/
def FalPartition.flashOffset (part : FalPartition) (addr : Nat) : Int :=
  toLong ((part.offset + addr) % 0x100000000).toNat

/-- The return code, and the buffer after the read. -/
def falPartitionRead (e : FlashEnv) (part : FalPartition) (c : Chip) (addr : Nat) (buf : Bytes)
    (size : Nat) : Int × Bytes :=
  if add32 addr size > part.len then (-1, buf)
  else
    match falFlashDeviceFind e part.flashName with
    | none => (-1, buf)
    | some dev =>
      let r := dev.read e c (part.flashOffset addr) size
      (r.1, patch buf 0 r.2)

def falPartitionWrite (e : FlashEnv) (part : FalPartition) (addr : Nat) (buf : Bytes) :
    Powered Chip Int :=
  if add32 addr buf.length > part.len then return -1
  else
    match falFlashDeviceFind e part.flashName with
    | none => return -1
    | some dev => dev.write e (part.flashOffset addr) buf

def falPartitionErase (e : FlashEnv) (part : FalPartition) (addr size : Nat) :
    Powered Chip Int :=
  if add32 addr size > part.len then return -1
  else
    match falFlashDeviceFind e part.flashName with
    | none => return -1
    | some dev => dev.erase e (part.flashOffset addr) size

def falPartitionEraseAll (e : FlashEnv) (part : FalPartition) : Powered Chip Int :=
  falPartitionErase e part 0 part.len

end EspushW60x
