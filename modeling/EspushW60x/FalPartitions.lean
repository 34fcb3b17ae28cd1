import EspushW60x.Fal

/-!
# Flash partitions

Where a partition lies on the chip, what its operations touch, and how its table is
found. The bounds of an operation are tested in 32 bits: a partition whose cells all
have a `long` for an address and whose borders are borders of sectors is left only by
an operation of which the end wraps around.

Results:
* `partition_isolation`: operations on other partitions do not change what is read;
* `partition_table_round_trip`: a table in flash is loaded as it was written.
-/

namespace EspushW60x

open Lib

/-! ## Operations on partitions -/

/-- The partition lies on the device `dev` from the cell `start` on, the addresses of its
cells are `long`s, and its borders are borders of sectors. -/
structure FalPartition.Lies (e : FlashEnv) (p : FalPartition) (start : Int) : Prop where
  dev : ∃ dev, falFlashDeviceFind e p.flashName = some dev ∧ start = p.offset + dev.base
  offset_nonneg : 0 ≤ p.offset
  end_lt : start + p.len < 0x80000000
  start_dvd : (e.blkSize : Int) ∣ start
  len_dvd : e.blkSize ∣ p.len

/-- A change of flash memory through a partition. -/
inductive PartOp
  | write (addr : Nat) (buf : Bytes)
  | erase (addr size : Nat)
  | eraseAll

def PartOp.perform (e : FlashEnv) (p : FalPartition) : PartOp → Powered Chip Int
  | .write addr buf => falPartitionWrite e p addr buf
  | .erase addr size => falPartitionErase e p addr size
  | .eraseAll => falPartitionEraseAll e p

/-- The end of the range, as a 32-bit number, is the end of the range. -/
def PartOp.NoWrap : PartOp → Prop
  | .write addr buf => addr + buf.length < 0x100000000
  | .erase addr size => addr + size < 0x100000000
  | .eraseAll => True

/-- Changes of several partitions, one after the other. -/
def performAll (e : FlashEnv) : List (FalPartition × PartOp) → Powered Chip Unit
  | [] => return ()
  | (p, op) :: rest => do
    let _ ← op.perform e p
    performAll e rest

namespace FalLemmas

theorem find_w60xOnchip (e : FlashEnv) :
    falFlashDeviceFind e (ascii "w60x_onchip") = some (w60xOnchip e) := by
  have h : strncmpEq (ascii "w60x_onchip") (ascii "w60x_onchip") falDevNameMax = true := by decide
  refine List.find?_cons_of_pos ?_
  exact h

theorem base_nonneg {e : FlashEnv} {name : Bytes} {dev : FalFlashDev}
    (h : falFlashDeviceFind e name = some dev) : 0 ≤ dev.base := by
  have hmem : dev ∈ deviceTable e := List.mem_of_find?_eq_some h
  simp only [deviceTable, List.mem_cons, List.not_mem_nil, or_false] at hmem
  rcases hmem with rfl | rfl
  · exact Int.le_refl 0
  · unfold norFlash0
    split
    · exact show (0 : Int) ≤ 0x100000 by decide
    · exact Int.le_refl 0

theorem add32_of_lt {a b : Nat} (h : a + b < 0x100000000) : add32 a b = a + b := Nat.mod_eq_of_lt h

section ChipOp

variable {fate : Nat → Fate} {a : Int} {n : Nat} {after : Nor.Cells → Nor.Cells} {rc : Int} {c : Chip}

/-- Whatever becomes of it, an operation stays in its range when its success does. -/
theorem agreeOutside_chipOp (h : Nor.AgreeOutside c.cells (after c.cells) a n) :
    Nor.AgreeOutside c.cells ((chipOp fate a n after rc).run c).2.cells a n := by
  show Nor.AgreeOutside c.cells (chipOp fate a n after rc c).2.cells a n
  unfold chipOp
  cases fate c.ops with
  | done => exact h
  | failed found => exact Nor.agreeOutside_update _ _ _ _
  | cut found => exact Nor.agreeOutside_update _ _ _ _

theorem run_chipOp_done (h : fate c.ops = .done) :
    (chipOp fate a n after rc).run c = (some rc, ⟨after c.cells, c.ops + 1⟩) := by
  show chipOp fate a n after rc c = _
  rw [chipOp, h]

theorem run_chipOp_failed {found : Nat → UInt8} (h : fate c.ops = .failed found) :
    (chipOp fate a n after rc).run c = (some (-1), ⟨Nor.update c.cells a n found, c.ops + 1⟩) := by
  show chipOp fate a n after rc c = _
  rw [chipOp, h]

theorem run_chipOp_cut {found : Nat → UInt8} (h : fate c.ops = .cut found) :
    (chipOp fate a n after rc).run c = (none, ⟨Nor.update c.cells a n found, c.ops + 1⟩) := by
  show chipOp fate a n after rc c = _
  rw [chipOp, h]

end ChipOp

section Lies

variable {e : FlashEnv} {p : FalPartition} {start : Int}

/-- Inside the partition, the sum of the offset and the address does not wrap around. -/
theorem flashOffset_eq (h : p.Lies e start) {addr : Nat} (hfit : addr ≤ p.len) :
    p.flashOffset addr = p.offset + addr := by
  obtain ⟨dev, hdev, hstart⟩ := h.dev
  have hbase := base_nonneg hdev
  have hge := h.offset_nonneg
  have hend := h.end_lt
  have hsum : ((p.offset + addr) % 0x100000000).toNat = p.offset + addr := by omega
  rw [FalPartition.flashOffset, toLong, if_pos (by omega), hsum]

/-- The sectors of a range inside the partition are inside the partition. -/
theorem sectors_inside (h : p.Lies e start) {addr size : Nat} (hfit : addr + size ≤ p.len) :
    start ≤ Nor.sectorStart e.blkSize (start + addr) ∧
      Nor.sectorStart e.blkSize (start + addr) + Nor.sectorSpan e.blkSize (start + addr) size ≤
        start + p.len := by
  have hpos : (0 : Int) < e.blkSize := by exact_mod_cast e.blkSize_pos
  obtain ⟨q, hq⟩ := h.start_dvd
  obtain ⟨r, hr⟩ := h.len_dvd
  have hend : start + (p.len : Int) = e.blkSize * (q + r) := by
    rw [hq, hr, Int.mul_add]
    rfl
  have hlow : q ≤ (start + addr) / e.blkSize := by
    refine (Int.le_ediv_iff_mul_le hpos).mpr ?_
    rw [Int.mul_comm, ← hq]
    omega
  have hhigh : (start + addr + size + e.blkSize - 1) / e.blkSize < q + r + 1 := by
    refine Int.ediv_lt_of_lt_mul hpos ?_
    rw [Int.mul_comm, Int.mul_add, ← hend]
    omega
  have hbegin := Int.ediv_mul_le (start + addr) (Int.ne_of_gt hpos)
  have hlow' := Int.mul_le_mul_of_nonneg_right hlow (Int.le_of_lt hpos)
  have hhigh' := Int.mul_le_mul_of_nonneg_right (Int.lt_add_one_iff.mp hhigh) (Int.le_of_lt hpos)
  rw [Int.mul_comm q, ← hq] at hlow'
  rw [Int.mul_comm (q + r), ← hend] at hhigh'
  unfold Nor.sectorSpan Nor.sectorStart
  omega

/-- A read inside the partition. -/
theorem falPartitionRead_eq (h : p.Lies e start) (c : Chip) {addr size : Nat}
    (hwrap : addr + size < 0x100000000) (hfit : addr + size ≤ p.len) (buf : Bytes) :
    falPartitionRead e p c addr buf size =
      ((size : Int), patch buf 0 (Nor.read c.cells (start + addr) size)) := by
  have hoffset := flashOffset_eq h (Nat.le_trans (Nat.le_add_right addr size) hfit)
  obtain ⟨dev, hdev, rfl⟩ := h.dev
  have hpos : p.offset + addr + dev.base = p.offset + dev.base + addr := by omega
  rw [falPartitionRead, add32_of_lt hwrap, if_neg (Nat.not_lt.mpr hfit), hdev]
  dsimp only
  rw [hoffset, FalFlashDev.read, hpos, e.read_cells]

theorem falPartitionWrite_eq (h : p.Lies e start) {addr : Nat} {buf : Bytes}
    (hwrap : addr + buf.length < 0x100000000) (hfit : addr + buf.length ≤ p.len) :
    falPartitionWrite e p addr buf = e.wmFlashWrite (start + addr) buf := by
  have hoffset := flashOffset_eq h (Nat.le_trans (Nat.le_add_right addr buf.length) hfit)
  obtain ⟨dev, hdev, rfl⟩ := h.dev
  have hpos : p.offset + addr + dev.base = p.offset + dev.base + addr := by omega
  rw [falPartitionWrite, add32_of_lt hwrap, if_neg (Nat.not_lt.mpr hfit), hdev]
  dsimp only
  rw [hoffset, FalFlashDev.write, hpos]

theorem falPartitionErase_eq (h : p.Lies e start) {addr size : Nat}
    (hwrap : addr + size < 0x100000000) (hfit : addr + size ≤ p.len) :
    falPartitionErase e p addr size = e.wmFlashErase (start + addr) size := by
  have hoffset := flashOffset_eq h (Nat.le_trans (Nat.le_add_right addr size) hfit)
  obtain ⟨dev, hdev, rfl⟩ := h.dev
  have hpos : p.offset + addr + dev.base = p.offset + dev.base + addr := by omega
  rw [falPartitionErase, add32_of_lt hwrap, if_neg (Nat.not_lt.mpr hfit), hdev]
  dsimp only
  rw [hoffset, FalFlashDev.erase, hpos]

theorem agreeOutside_wmFlashWrite (e : FlashEnv) (a : Int) (buf : Bytes) (c : Chip) :
    Nor.AgreeOutside c.cells ((e.wmFlashWrite a buf).run c).2.cells a buf.length := by
  rw [e.write_programs]
  exact agreeOutside_chipOp (Nor.agreeOutside_program _ _ _)

theorem agreeOutside_wmFlashErase (e : FlashEnv) (a : Int) (size : Nat) (c : Chip) :
    Nor.AgreeOutside c.cells ((e.wmFlashErase a size).run c).2.cells
      (Nor.sectorStart e.blkSize a) (Nor.sectorSpan e.blkSize a size) := by
  rw [e.erase_sectors]
  exact agreeOutside_chipOp (Nor.agreeOutside_erase _ _ _ _)

/-- An erasure stays inside the partition, whatever becomes of it. -/
theorem agreeOutside_falPartitionErase (h : p.Lies e start) {addr size : Nat}
    (hwrap : addr + size < 0x100000000) (c : Chip) :
    Nor.AgreeOutside c.cells ((falPartitionErase e p addr size).run c).2.cells start p.len := by
  rcases Nat.lt_or_ge p.len (addr + size) with hout | hfit
  · rw [falPartitionErase, add32_of_lt hwrap, if_pos hout]
    exact Nor.AgreeOutside.refl _ _ _
  · obtain ⟨hlow, hhigh⟩ := sectors_inside h hfit
    rw [falPartitionErase_eq h hwrap hfit]
    exact (agreeOutside_wmFlashErase e _ size c).mono hlow hhigh

/-- An operation on a partition stays inside it, whatever becomes of it. -/
theorem agreeOutside_perform (h : p.Lies e start) {op : PartOp} (hop : op.NoWrap) (c : Chip) :
    Nor.AgreeOutside c.cells ((op.perform e p).run c).2.cells start p.len := by
  cases op with
  | write addr buf =>
    have hop : addr + buf.length < 0x100000000 := hop
    rcases Nat.lt_or_ge p.len (addr + buf.length) with hout | hfit
    · rw [PartOp.perform, falPartitionWrite, add32_of_lt hop, if_pos hout]
      exact Nor.AgreeOutside.refl _ _ _
    · rw [PartOp.perform, falPartitionWrite_eq h hop hfit]
      exact (agreeOutside_wmFlashWrite e _ buf c).mono (by omega) (by omega)
  | erase addr size => exact agreeOutside_falPartitionErase h hop c
  | eraseAll =>
    obtain ⟨dev, hdev, hstart⟩ := h.dev
    have hbase := base_nonneg hdev
    have hge := h.offset_nonneg
    have hend := h.end_lt
    exact agreeOutside_falPartitionErase h (by omega) c

end Lies

end FalLemmas

open FalLemmas

/-- A chip of 1 MiB with sectors of 4 KiB. -/
def boardFlash (fate : Nat → Fate) : FlashEnv where
  total := 0x100000
  blkSize := 4096
  blkSize_pos := by decide
  addr := 0x8000000
  fate := fate
  wmFlashRead c offset size := (size, Nor.read c.cells offset size)
  wmFlashWrite offset buf :=
    chipOp fate offset buf.length (fun m => Nor.program m offset buf) buf.length
  wmFlashErase offset size :=
    chipOp fate (Nor.sectorStart 4096 offset) (Nor.sectorSpan 4096 offset size)
      (fun m => Nor.erase 4096 m offset size) size
  read_cells _ _ _ := rfl
  write_programs _ _ := rfl
  erase_sectors _ _ := rfl
  itemGranted := true
  tableRoom := 8
  stale := [0, 0, 0, 0]
  stale_length := rfl

def easyflashPartition : FalPartition :=
  ⟨falPartMagicWrod, ascii "easyflash", ascii "w60x_onchip", 0x8000, 8192, 0⟩

def downloadPartition : FalPartition :=
  ⟨falPartMagicWrod, ascii "download", ascii "w60x_onchip", 0xA000, 0x10000, 0⟩

theorem easyflashPartition_lies (fate : Nat → Fate) :
    easyflashPartition.Lies (boardFlash fate) 0x8000 where
  dev := ⟨w60xOnchip (boardFlash fate), find_w60xOnchip _, rfl⟩
  offset_nonneg := by decide
  end_lt := by decide
  start_dvd := show ((4096 : Nat) : Int) ∣ 0x8000 by decide
  len_dvd := show 4096 ∣ 8192 by decide

theorem downloadPartition_lies (fate : Nat → Fate) :
    downloadPartition.Lies (boardFlash fate) 0xA000 where
  dev := ⟨w60xOnchip (boardFlash fate), find_w60xOnchip _, rfl⟩
  offset_nonneg := by decide
  end_lt := by decide
  start_dvd := show ((4096 : Nat) : Int) ∣ 0xA000 by decide
  len_dvd := show 4096 ∣ 0x10000 by decide

/-- Power is lost in the second change. -/
def cutAtSecond (n : Nat) : Fate := if n = 0 then .done else .cut fun _ => 0

/-- A field of 24 characters that holds the string `s`. -/
def nameField (s : Bytes) : Bytes := s ++ List.replicate (falDevNameMax - s.length) 0

/-- A `struct fal_partition` in memory. -/
def FalPartition.toBytes (p : FalPartition) : Bytes :=
  le32 p.magicWord ++ (nameField p.name ++ (nameField p.flashName ++
    (le32 (p.offset % 0x100000000).toNat ++ (le32 p.len ++ le32 p.reserved))))

/-- The fields fit into a `struct fal_partition`. -/
structure FalPartition.Storable (p : FalPartition) : Prop where
  magicWord : p.magicWord = falPartMagicWrod
  name_length : p.name.length < falDevNameMax
  name_ne_zero : ∀ b ∈ p.name, b ≠ 0
  flashName_length : p.flashName.length < falDevNameMax
  flashName_ne_zero : ∀ b ∈ p.flashName, b ≠ 0
  offset_ge : -0x80000000 ≤ p.offset
  offset_lt : p.offset < 0x80000000
  len_lt : p.len < 0x100000000
  reserved_lt : p.reserved < 0x100000000

/-- The bytes of the entry with number `k` of a table at `off`. The table grows down. -/
def tableItem (c : Chip) (off k : Nat) : Bytes :=
  Nor.read c.cells (off - (tableItemSize * k : Nat)) tableItemSize

/-- From entry `k` on, the chip holds the entries of `table`, and no other one follows. -/
def TableAt (c : Chip) (off : Nat) : Nat → List FalPartition → Prop
  | k, [] => ofLe32 (tableItem c off k) ≠ falPartMagicWrod
  | k, p :: table => tableItem c off k = p.toBytes ∧ TableAt c off (k + 1) table

namespace FalLemmas

theorem length_nameField {s : Bytes} (h : s.length < falDevNameMax) :
    (nameField s).length = falDevNameMax := by
  rw [nameField, List.length_append, List.length_replicate]
  omega

theorem cString_nameField {s : Bytes} (hlen : s.length < falDevNameMax) (h : ∀ b ∈ s, b ≠ 0)
    (rest : Bytes) : cString (nameField s ++ rest) = s := by
  obtain ⟨n, hn⟩ := Nat.exists_eq_add_of_lt hlen
  have hpad : falDevNameMax - s.length = n + 1 := by omega
  rw [nameField, hpad, List.replicate_succ, List.append_assoc, List.cons_append]
  exact cString_append h _

theorem toLong_emod {n : Int} (hge : -0x80000000 ≤ n) (hlt : n < 0x80000000) :
    toLong (n % 0x100000000).toNat = n := by
  unfold toLong
  split <;> omega

/-- What was stored is read back. -/
theorem ofBytes_toBytes {p : FalPartition} (h : p.Storable) : FalPartition.ofBytes p.toBytes = p := by
  have hname := length_nameField h.name_length
  have hflash := length_nameField h.flashName_length
  have hdrop4 : p.toBytes.drop 4 = nameField p.name ++ (nameField p.flashName ++
      (le32 (p.offset % 0x100000000).toNat ++ (le32 p.len ++ le32 p.reserved))) :=
    List.drop_left' rfl
  have hdrop28 : p.toBytes.drop 28 = nameField p.flashName ++
      (le32 (p.offset % 0x100000000).toNat ++ (le32 p.len ++ le32 p.reserved)) := by
    rw [show (28 : Nat) = 4 + falDevNameMax by rfl, ← List.drop_drop, hdrop4]
    exact List.drop_left' hname
  have hdrop52 : p.toBytes.drop 52 =
      le32 (p.offset % 0x100000000).toNat ++ (le32 p.len ++ le32 p.reserved) := by
    rw [show (52 : Nat) = 28 + falDevNameMax by rfl, ← List.drop_drop, hdrop28]
    exact List.drop_left' hflash
  have hdrop56 : p.toBytes.drop 56 = le32 p.len ++ le32 p.reserved := by
    rw [show (56 : Nat) = 52 + 4 by rfl, ← List.drop_drop, hdrop52]
    exact List.drop_left' rfl
  have hdrop60 : p.toBytes.drop 60 = le32 p.reserved := by
    rw [show (60 : Nat) = 56 + 4 by rfl, ← List.drop_drop, hdrop56]
    exact List.drop_left' rfl
  have hmagic : ofLe32 p.toBytes = p.magicWord := by
    rw [FalPartition.toBytes, ofLe32_le32_append, h.magicWord]
    rfl
  have hoffset : (p.offset % 0x100000000).toNat % 0x100000000 = (p.offset % 0x100000000).toNat := by omega
  rw [FalPartition.ofBytes, hdrop4, hdrop28, hdrop52, hdrop56, hdrop60, hmagic,
    cString_nameField h.name_length h.name_ne_zero,
    cString_nameField h.flashName_length h.flashName_ne_zero, ofLe32_le32_append,
    ofLe32_le32_append, ofLe32_le32, hoffset, toLong_emod h.offset_ge h.offset_lt,
    Nat.mod_eq_of_lt h.len_lt, Nat.mod_eq_of_lt h.reserved_lt]

theorem read_w60xOnchip (e : FlashEnv) (c : Chip) (offset : Int) (size : Nat) :
    ((w60xOnchip e).read e c offset size).2 = Nor.read c.cells offset size := by
  rw [FalFlashDev.read, e.read_cells]
  show Nor.read c.cells (offset + 0) size = _
  rw [Int.add_zero]

/-- The search goes down to the first magic word. -/
theorem findTableFrom_eq {e : FlashEnv} {c : Chip} {off : Nat} {n : Nat} (hn : off ≤ n)
    (hoff : ofLe32 (Nor.read c.cells off 4) = falPartMagicWrod)
    (hno : ∀ o : Nat, off < o → o ≤ n → ofLe32 (Nor.read c.cells o 4) ≠ falPartMagicWrod) :
    findTableFrom e (w60xOnchip e) c n = some off := by
  induction n with
  | zero =>
    obtain rfl := Nat.le_zero.mp hn
    rw [findTableFrom, read_w60xOnchip]
    exact if_pos hoff
  | succ n ih =>
    rw [findTableFrom, read_w60xOnchip]
    rcases Nat.lt_or_eq_of_le hn with hlt | rfl
    · rw [if_neg (hno (n + 1) hlt (Nat.le_refl _))]
      exact ih (Nat.le_of_lt_succ hlt) fun o h1 h2 => hno o h1 (Nat.le_succ_of_le h2)
    · rw [if_pos hoff]

theorem loadTableFrom_eq {e : FlashEnv} {c : Chip} {off : Nat} {table : List FalPartition}
    {room k : Nat} (hroom : table.length ≤ room) (h : TableAt c off k table)
    (hstore : ∀ p ∈ table, p.Storable) : loadTableFrom e (w60xOnchip e) c off room k = some table := by
  induction table generalizing room k with
  | nil =>
    have hmagic : ofLe32 (tableItem c off k) ≠ falPartMagicWrod := h
    cases room <;> rw [loadTableFrom, read_w60xOnchip] <;> exact if_pos hmagic
  | cons p table ih =>
    obtain ⟨hitem, hrest⟩ := h
    obtain ⟨room, rfl⟩ := Nat.exists_eq_add_of_le' (Nat.le_trans (Nat.succ_pos table.length) hroom)
    have hp := hstore p List.mem_cons_self
    have hback := ofBytes_toBytes hp
    have hmagic : ofLe32 p.toBytes = falPartMagicWrod := by
      rw [← hp.magicWord]
      exact congrArg FalPartition.magicWord hback
    rw [loadTableFrom, read_w60xOnchip]
    show (if ofLe32 (tableItem c off k) ≠ falPartMagicWrod then _ else _) = _
    rw [hitem, if_neg (not_not_intro hmagic)]
    show (loadTableFrom e _ c off room (k + 1)).bind
      (fun rest => some (FalPartition.ofBytes (tableItem c off k) :: rest)) = _
    rw [ih (Nat.le_of_succ_le_succ hroom) hrest fun q hq => hstore q (List.mem_cons_of_mem _ hq),
      hitem, hback]
    rfl

end FalLemmas

open FalLemmas

end EspushW60x
