import EspushW60x.EnvCache
import EspushW60x.FalPartitions
import EspushW60x.Lib.Shadow

/-!
# The areas of the variables in flash

What an area holds after the variables were saved to it, and what makes
`ef_load_env` reject an area: an end outside of it, or a checksum that is wrong.

Results:
* `Found.of_same`, `areaSame_of_agree`: a save to one area leaves the other one;
* `run_efSaveEnv`: what a save leaves when it succeeds, fails, or is cut off.
-/

namespace EspushW60x

open Lib FalLemmas EnvLemmas

/-- The partition of the variables: it lies on the chip, both areas fit, and each
consists of whole sectors. -/
structure EnvPartition (e : FlashEnv) where
  part : FalPartition
  start : Int
  lies : part.Lies e start
  room : envAreaSize ≤ part.len
  sectors : e.blkSize ∣ efEraseMinSize

/-- The address of area 0 and of area 1. -/
def areaAddr : Bool → Nat
  | false => efStartAddr
  | true => efStartAddr + envAreaSize / 2

/-- The checksum of an area with the table `t` that is the `n`-th one saved. -/
def areaCrc (side : Bool) (n : Nat) (t : EnvTable) : BitVec 32 :=
  efCalcCrc32 0 (le32 (areaAddr side + t.size) ++ (le32 n ++ t.encode))

/-- What is saved to an area. -/
def areaText (side : Bool) (n : Nat) (t : EnvTable) : Bytes :=
  le32 (areaAddr side + t.size) ++ (le32 n ++ (le32 (areaCrc side n t).toNat ++ t.encode))

section

variable {e : FlashEnv} (p : EnvPartition e)

/-- The cell where an area begins. -/
def EnvPartition.base (side : Bool) : Int := p.start + areaAddr side

/-- The area holds the table `t`, saved as the `n`-th one. -/
def AreaHolds (m : Nor.Cells) (side : Bool) (n : Nat) (t : EnvTable) : Prop :=
  Nor.read m (p.base side) t.size = areaText side n t ∧ n < 0x100000000

/-- Where the data in the area ends, as it says itself. -/
def areaEnd (m : Nor.Cells) (side : Bool) : Nat := ofLe32 (Nor.read m (p.base side) 4)

/-- The area does not pass its check. -/
def AreaBad (m : Nor.Cells) (side : Bool) : Prop :=
  areaEndOk (areaAddr side) (areaEnd p m side) = false ∨
    areaAddr side + envParamByteSize ≤ areaEnd p m side ∧
      (efCalcCrc32 0 (Nor.read m (p.base side) 8 ++
        Nor.read m (p.base side + envParamByteSize)
          (areaEnd p m side - areaAddr side - envParamByteSize))).toNat ≠
        ofLe32 (Nor.read m (p.base side + 8) 4)

/-- What is found in an area: nothing, or a table with its number. -/
def Found (m : Nor.Cells) (side : Bool) : Option (Nat × EnvTable) → Prop
  | none => AreaBad p m side
  | some x => AreaHolds p m side x.1 x.2

/-- The cells of the area are the same. -/
def AreaSame (m m' : Nor.Cells) (side : Bool) : Prop :=
  Nor.read m' (p.base side) envUserSettingSize = Nor.read m (p.base side) envUserSettingSize

end

namespace AreaLemmas

theorem areaAddr_inj {a b : Bool} (h : areaAddr a = areaAddr b) : a = b := by
  cases a <;> cases b <;> first | rfl | cases h

theorem areaAddr_le (side : Bool) : areaAddr side + envUserSettingSize ≤ envAreaSize := by
  cases side <;> decide

theorem areaAddr_mod (side : Bool) : areaAddr side % efEraseMinSize = 0 := by
  cases side <;> rfl

theorem length_areaText (side : Bool) (n : Nat) (t : EnvTable) :
    (areaText side n t).length = t.size := by
  simp only [areaText, List.length_append, length_le32, size_eq]
  show _ = 12 + _
  omega

theorem le_of_areaEndOk {a b : Nat} (h : areaEndOk a b = true) :
    a ≤ b ∧ b ≤ a + envUserSettingSize := by
  simp only [areaEndOk, Bool.not_eq_true', decide_eq_false_iff_not, not_or, Nat.not_lt] at h
  exact ⟨h.2.1, h.2.2⟩

theorem areaEndOk_of_le {a b : Nat} (h1 : a ≤ b) (h2 : b ≤ a + envUserSettingSize)
    (ha : a ≤ envAreaSize) : areaEndOk a b = true := by
  have hsize : envUserSettingSize = 2048 := rfl
  have harea : envAreaSize = 8192 := rfl
  simp only [areaEndOk, Bool.not_eq_true', decide_eq_false_iff_not, not_or, Nat.not_lt]
  omega

end AreaLemmas

open AreaLemmas

section

variable {e : FlashEnv} {p : EnvPartition e} {m m' : Nor.Cells} {side : Bool}

/-- A range inside the area. -/
theorem AreaSame.read (h : AreaSame p m m' side) {i n : Nat} (hfit : i + n ≤ envUserSettingSize) :
    Nor.read m' (p.base side + i) n = Nor.read m (p.base side + i) n := by
  rw [← Nor.take_drop_read m' _ hfit, ← Nor.take_drop_read m _ hfit, h]

theorem AreaSame.read_zero (h : AreaSame p m m' side) {n : Nat} (hfit : n ≤ envUserSettingSize) :
    Nor.read m' (p.base side) n = Nor.read m (p.base side) n := by
  have hread := h.read (i := 0) (n := n) (by omega)
  rwa [Int.natCast_zero, Int.add_zero] at hread

theorem AreaBad.of_same (h : AreaSame p m m' side) (hbad : AreaBad p m side) :
    AreaBad p m' side := by
  have hend : areaEnd p m' side = areaEnd p m side := by
    rw [areaEnd, areaEnd, h.read_zero (by decide)]
  unfold AreaBad at hbad ⊢
  rw [hend]
  rcases Bool.eq_false_or_eq_true (areaEndOk (areaAddr side) (areaEnd p m side)) with hok | hno
  · obtain ⟨hle, hge⟩ := le_of_areaEndOk hok
    refine .inr ?_
    obtain hno | ⟨hlow, hcrc⟩ := hbad
    · rw [hok] at hno
      cases hno
    · refine ⟨hlow, ?_⟩
      have hhead := h.read_zero (n := 8) (by decide)
      have hcrcWord := h.read (i := 8) (n := 4) (by decide)
      have hdata := h.read (i := envParamByteSize)
        (n := areaEnd p m side - areaAddr side - envParamByteSize) (by omega)
      rw [hhead, hdata]
      rwa [show (8 : Int) = ((8 : Nat) : Int) by rfl, hcrcWord]
  · exact .inl hno

theorem AreaHolds.of_same (h : AreaSame p m m' side) {n : Nat} {t : EnvTable}
    (hholds : AreaHolds p m side n t) : AreaHolds p m' side n t :=
  ⟨(h.read_zero (Nat.le_of_lt (size_lt t))).trans hholds.1, hholds.2⟩

theorem Found.of_same (h : AreaSame p m m' side) {x : Option (Nat × EnvTable)}
    (hx : Found p m side x) : Found p m' side x := by
  cases x with
  | none => exact AreaBad.of_same h hx
  | some x => exact AreaHolds.of_same h hx

/-- A change inside one area leaves the other one as it was. -/
theorem areaSame_of_agree (h : Nor.AgreeOutside m m' (p.base side) efEraseMinSize) :
    AreaSame p m m' (!side) := by
  refine h.read ?_
  have h1 : ((envUserSettingSize : Nat) : Int) = 2048 := rfl
  have h2 : ((efEraseMinSize : Nat) : Int) = 4096 := rfl
  have h3 : ((areaAddr true : Nat) : Int) = 4096 := rfl
  have h4 : ((areaAddr false : Nat) : Int) = 0 := rfl
  unfold EnvPartition.base
  cases side
  · rw [Bool.not_false]
    omega
  · rw [Bool.not_true]
    omega

end

/-! ## The parameters in `env_cache` -/

/-- `env_cache` is the three words, the data, and what is behind them. -/
structure Split (s : Ef) (w0 w1 w2 data slack : Bytes) : Prop where
  cache : s.envCache = w0 ++ (w1 ++ (w2 ++ (data ++ slack)))
  len0 : w0.length = 4
  len1 : w1.length = 4
  len2 : w2.length = 4

section

variable {s : Ef} {t : EnvTable} {w0 w1 w2 data slack : Bytes}

theorem Split.word0 (h : Split s w0 w1 w2 data slack) : s.word envParamIndexEndAddr = ofLe32 w0 := by
  rw [Ef.word, h.cache]
  exact ofLe32_append _ (Nat.le_of_eq h.len0.symm)

theorem Split.word1 (h : Split s w0 w1 w2 data slack) :
    s.word envParamIndexSavedCount = ofLe32 w1 := by
  have hdrop : s.envCache.drop (4 * envParamIndexSavedCount) = w1 ++ (w2 ++ (data ++ slack)) := by
    rw [h.cache]
    exact List.drop_left' h.len0
  rw [Ef.word, hdrop]
  exact ofLe32_append _ (Nat.le_of_eq h.len1.symm)

theorem Split.word2 (h : Split s w0 w1 w2 data slack) :
    s.word envParamIndexDataCrc = ofLe32 w2 := by
  have hdrop : s.envCache.drop (4 * envParamIndexDataCrc) = w2 ++ (data ++ slack) := by
    rw [h.cache, ← List.append_assoc]
    exact List.drop_left' (by rw [List.length_append, h.len0, h.len1]; rfl)
  rw [Ef.word, hdrop]
  exact ofLe32_append _ (Nat.le_of_eq h.len2.symm)

theorem Split.drop_data (h : Split s w0 w1 w2 data slack) :
    s.envCache.drop envParamByteSize = data ++ slack := by
  rw [h.cache, ← List.append_assoc, ← List.append_assoc]
  exact List.drop_left' (by simp only [List.length_append, h.len0, h.len1, h.len2]; rfl)

/-- The checksum is that of the first two words and the data. -/
theorem Split.calcEnvCrc (h : Split s w0 w1 w2 data slack) (hsize : getEnvDataSize s = data.length) :
    calcEnvCrc s = efCalcCrc32 0 (w0 ++ (w1 ++ data)) := by
  have htake0 : s.envCache.take 4 = w0 := by
    rw [h.cache]
    exact List.take_left' h.len0
  have htake1 : (s.envCache.drop 4).take 4 = w1 := by
    rw [h.cache, List.drop_left' h.len0]
    exact List.take_left' h.len1
  have hdata : (s.envCache.drop envParamByteSize).take (getEnvDataSize s) = data := by
    rw [h.drop_data, hsize]
    exact List.take_left' rfl
  unfold EspushW60x.calcEnvCrc
  rw [htake0, htake1, hdata, efCalcCrc32_append, efCalcCrc32_append]

theorem Split.setWord0 (h : Split s w0 w1 w2 data slack) (n : Nat) :
    Split (s.setWord envParamIndexEndAddr n) (le32 n) w1 w2 data slack where
  cache := by
    show patch s.envCache _ (le32 n) = _
    rw [h.cache]
    exact patch_replace (show 4 * envParamIndexEndAddr = ([] : Bytes).length from rfl)
      (by rw [h.len0]; rfl)
  len0 := rfl
  len1 := h.len1
  len2 := h.len2

theorem Split.setWord1 (h : Split s w0 w1 w2 data slack) (n : Nat) :
    Split (s.setWord envParamIndexSavedCount n) w0 (le32 n) w2 data slack where
  cache := by
    show patch s.envCache _ (le32 n) = _
    rw [h.cache]
    exact patch_replace h.len0.symm (by rw [h.len1]; rfl)
  len0 := h.len0
  len1 := rfl
  len2 := h.len2

theorem Split.setWord2 (h : Split s w0 w1 w2 data slack) (n : Nat) :
    Split (s.setWord envParamIndexDataCrc n) w0 w1 (le32 n) data slack where
  cache := by
    show patch s.envCache _ (le32 n) = _
    rw [h.cache, ← List.append_assoc, patch_replace (by rw [List.length_append, h.len0, h.len1]; rfl)
      (by rw [h.len2]; rfl), List.append_assoc]
  len0 := h.len0
  len1 := h.len1
  len2 := rfl

/-- A block that holds a table is split at its words. -/
theorem Holds.split (h : Holds s t) : ∃ w0 w1 w2 slack, Split s w0 w1 w2 t.encode slack := by
  have hlen : s.envCache.length = 2048 := h.length
  refine ⟨s.envCache.take 4, (s.envCache.drop 4).take 4, (s.envCache.drop 8).take 4,
    s.envCache.drop t.size, ?_, ?_, ?_, ?_⟩
  · have h4 : s.envCache.take 4 ++ s.envCache.drop 4 = s.envCache := List.take_append_drop _ _
    have h8 := List.take_append_drop 4 (s.envCache.drop 4)
    have h12 := List.take_append_drop 4 (s.envCache.drop 8)
    have hdata : s.envCache.drop 12 = t.encode ++ s.envCache.drop t.size := EnvLemmas.drop_data h
    rw [List.drop_drop] at h8 h12
    rw [← hdata, h12, h8, h4]
  all_goals
    simp only [List.length_take, List.length_drop]
    omega

/-- A block that is split at its words holds the table in its data. -/
theorem Split.holds (h : Split s w0 w1 w2 t.encode slack) (hlen : s.envCache.length = envUserSettingSize)
    (harea : s.curLoadAreaAddr ≤ envAreaSize) (hend : ofLe32 w0 = s.curLoadAreaAddr + t.size) :
    Holds s t where
  length := hlen
  area := harea
  endAddr := h.word0.trans hend
  data := by
    rw [h.drop_data]
    exact List.take_left' rfl

end

/-! ## Saving -/

/-- The state in `ef_save_env` before the erase. -/
def preparedToSave (s : Ef) : Ef :=
  let s1 := { s with
    nextSaveAreaAddr := s.curLoadAreaAddr, curLoadAreaAddr := s.nextSaveAreaAddr }
  let s2 := setEnvEndAddr s1 (s.nextSaveAreaAddr + getEnvUserUsedSize s)
  let s3 := s2.setWord envParamIndexSavedCount (s2.word envParamIndexSavedCount + 1)
  s3.setWord envParamIndexDataCrc (calcEnvCrc s3).toNat

/-- What is known before the erase. -/
structure Prepared (s s' : Ef) (t : EnvTable) (side : Bool) : Prop where
  holds : Holds s' t
  text : s'.envCache.take t.size =
    areaText side ((s.word envParamIndexSavedCount + 1) % 0x100000000) t
  count : s'.word envParamIndexSavedCount = (s.word envParamIndexSavedCount + 1) % 0x100000000
  cur : s'.curLoadAreaAddr = areaAddr side
  next : s'.nextSaveAreaAddr = s.curLoadAreaAddr
  initOk : s'.initOk = s.initOk
  changed : s'.envCacheChanged = s.envCacheChanged
  chip : s'.chip = s.chip

theorem prepared_preparedToSave {s : Ef} {t : EnvTable} (h : Holds s t) {side : Bool}
    (hnext : s.nextSaveAreaAddr = areaAddr side) : Prepared s (preparedToSave s) t side := by
  obtain ⟨w0, w1, w2, slack, hsplit⟩ := h.split
  have hused := usedSize_eq h
  have haddr := areaAddr_le side
  have hsize := size_lt t
  have harea : envAreaSize = 8192 := rfl
  have hword : (areaAddr side + t.size) % 0x100000000 = areaAddr side + t.size := by
    refine Nat.mod_eq_of_lt ?_
    omega
  let s1 : Ef := { s with
    nextSaveAreaAddr := s.curLoadAreaAddr, curLoadAreaAddr := s.nextSaveAreaAddr }
  let s2 := setEnvEndAddr s1 (s.nextSaveAreaAddr + getEnvUserUsedSize s)
  let s3 := s2.setWord envParamIndexSavedCount (s2.word envParamIndexSavedCount + 1)
  have hsplit1 : Split s1 w0 w1 w2 t.encode slack := ⟨hsplit.cache, hsplit.len0, hsplit.len1, hsplit.len2⟩
  have hsplit2 : Split s2 (le32 (areaAddr side + t.size)) w1 w2 t.encode slack := by
    rw [← hnext, ← hused]
    exact hsplit1.setWord0 _
  have hcount : s2.word envParamIndexSavedCount = s.word envParamIndexSavedCount :=
    hsplit2.word1.trans hsplit.word1.symm
  have hsplit3 : Split s3 (le32 (areaAddr side + t.size))
      (le32 ((s.word envParamIndexSavedCount + 1) % 0x100000000)) w2 t.encode slack := by
    rw [le32_mod, ← hcount]
    exact hsplit2.setWord1 _
  have hlen : s.envCache.length = envUserSettingSize := h.length
  have hlen3 : s3.envCache.length = envUserSettingSize := by
    show (patch (patch s.envCache _ _) _ _).length = _
    rw [length_patch, length_patch, hlen]
  have hend : ofLe32 (le32 (areaAddr side + t.size)) = s3.curLoadAreaAddr + t.size := by
    rw [ofLe32_le32, hword, show s3.curLoadAreaAddr = areaAddr side from hnext]
  have hholds3 : Holds s3 t :=
    hsplit3.holds hlen3 (by rw [show s3.curLoadAreaAddr = areaAddr side from hnext]; omega) hend
  have hcrc : calcEnvCrc s3 = areaCrc side ((s.word envParamIndexSavedCount + 1) % 0x100000000) t :=
    hsplit3.calcEnvCrc (dataSize_eq hholds3)
  have hsplit4 := hsplit3.setWord2 (calcEnvCrc s3).toNat
  have hprepared : preparedToSave s = s3.setWord envParamIndexDataCrc (calcEnvCrc s3).toNat := rfl
  have hlen4 : (preparedToSave s).envCache.length = envUserSettingSize := by
    rw [hprepared]
    show (patch s3.envCache _ _).length = _
    rw [length_patch, hlen3]
  rw [← hprepared] at hsplit4
  refine ⟨hsplit4.holds hlen4 ?_ hend, ?_, ?_, hnext, rfl, rfl, rfl, rfl⟩
  · rw [show (preparedToSave s).curLoadAreaAddr = areaAddr side from hnext]
    omega
  · have hcache : (preparedToSave s).envCache =
        areaText side ((s.word envParamIndexSavedCount + 1) % 0x100000000) t ++ slack := by
      rw [hsplit4.cache, hcrc, areaText]
      simp only [List.append_assoc]
    rw [hcache]
    exact List.take_left' (length_areaText _ _ _)
  · rw [hsplit4.word1, ofLe32_le32, Nat.mod_mod]

/-- How a save of the bytes `text` to an area ends: the result, whether the variables
still count as changed, and the chip. -/
inductive SaveEnds {e : FlashEnv} (p : EnvPartition e) (c : Chip) (side : Bool) (text : Bytes) :
    Option EfErrCode → Bool → Chip → Prop
  | done (herase : e.fate c.ops = .done) (hwrite : e.fate (c.ops + 1) = .done) :
      SaveEnds p c side text (some .noErr) false
        ⟨Nor.program (Nor.erase e.blkSize c.cells (p.base side) text.length) (p.base side) text,
          c.ops + 1 + 1⟩
  | eraseFailed (found : Nat → UInt8) (herase : e.fate c.ops = .failed found) :
      SaveEnds p c side text (some .eraseErr) true
        ⟨Nor.update c.cells (p.base side) (Nor.sectorSpan e.blkSize (p.base side) text.length) found,
          c.ops + 1⟩
  | eraseCut (found : Nat → UInt8) (herase : e.fate c.ops = .cut found) :
      SaveEnds p c side text none true
        ⟨Nor.update c.cells (p.base side) (Nor.sectorSpan e.blkSize (p.base side) text.length) found,
          c.ops + 1⟩
  | writeFailed (found : Nat → UInt8) (herase : e.fate c.ops = .done)
      (hwrite : e.fate (c.ops + 1) = .failed found) :
      SaveEnds p c side text (some .writeErr) false
        ⟨Nor.update (Nor.erase e.blkSize c.cells (p.base side) text.length) (p.base side) text.length
          found, c.ops + 1 + 1⟩
  | writeCut (found : Nat → UInt8) (herase : e.fate c.ops = .done)
      (hwrite : e.fate (c.ops + 1) = .cut found) :
      SaveEnds p c side text none true
        ⟨Nor.update (Nor.erase e.blkSize c.cells (p.base side) text.length) (p.base side) text.length
          found, c.ops + 1 + 1⟩

/-- What a save of the table `t` to an area leaves. -/
structure SaveOutcome {e : FlashEnv} (p : EnvPartition e) (s : Ef) (t : EnvTable) (side : Bool)
    (r : Option EfErrCode × Ef) : Prop where
  holds : Holds r.2 t
  count : r.2.word envParamIndexSavedCount = (s.word envParamIndexSavedCount + 1) % 0x100000000
  cur : r.2.curLoadAreaAddr = areaAddr side
  next : r.2.nextSaveAreaAddr = s.curLoadAreaAddr
  initOk : r.2.initOk = s.initOk
  ends : SaveEnds p s.chip side (areaText side ((s.word envParamIndexSavedCount + 1) % 0x100000000) t)
    r.1 r.2.envCacheChanged r.2.chip

namespace AreaLemmas

section

variable {e : FlashEnv} {p : EnvPartition e} {side : Bool}

theorem base_dvd (p : EnvPartition e) (side : Bool) : (e.blkSize : Int) ∣ p.base side := by
  have hsector : (e.blkSize : Int) ∣ efEraseMinSize := Int.natCast_dvd_natCast.mpr p.sectors
  refine Int.dvd_add p.lies.start_dvd ?_
  cases side
  · exact Int.dvd_zero _
  · exact hsector

theorem area_room (p : EnvPartition e) (side : Bool) {n : Nat} (hn : n ≤ envUserSettingSize) :
    areaAddr side + n < 0x100000000 ∧ areaAddr side + n ≤ p.part.len := by
  have haddr := areaAddr_le side
  have harea : envAreaSize = 8192 := rfl
  have hroom := p.room
  omega

/-- The range of an erase stays in the area. -/
theorem erase_inside (p : EnvPartition e) (side : Bool) {n : Nat} (hn : n ≤ envUserSettingSize) :
    Nor.sectorStart e.blkSize (p.base side) = p.base side ∧
      Nor.sectorSpan e.blkSize (p.base side) n ≤ efEraseMinSize :=
  Nor.sectors_aligned e.blkSize_pos (base_dvd p side) p.sectors
    (Nat.le_trans hn (show (2048 : Nat) ≤ 4096 by decide))

/-- An operation on the chip, and what follows it. -/
theorem run_chip_bind {α β : Type} (x : Powered Chip α) (f : α → Powered Ef β) (s : Ef) :
    ((liftM x : Powered Ef α) >>= f).run s =
      match x.run s.chip with
      | (some a, c) => (f a).run { s with chip := c }
      | (none, c) => (none, { s with chip := c }) := by
  have hlift : (liftM x : Powered Ef α).run s =
      ((x.run s.chip).1, { s with chip := (x.run s.chip).2 }) := rfl
  rw [Powered.run_bind, hlift]
  cases x.run s.chip with
  | mk r c => cases r <;> rfl

theorem four_le_span (p : EnvPartition e) (side : Bool) {n : Nat} (hn : 4 ≤ n)
    (hle : n ≤ envUserSettingSize) : 4 ≤ Nor.sectorSpan e.blkSize (p.base side) n := by
  obtain ⟨hstart, _⟩ := erase_inside p side hle
  have hcover := Nor.sectors_cover e.blkSize_pos (p.base side) n
  omega

theorem run_efPortErase (p : EnvPartition e) (s : Ef) {n : Nat} (hn : n ≤ envUserSettingSize) :
    (efPortErase e p.part (areaAddr side) n).run s =
      (((e.wmFlashErase (p.base side) n).run s.chip).1.map
          fun rc => if rc < 0 then EfErrCode.eraseErr else .noErr,
        { s with chip := ((e.wmFlashErase (p.base side) n).run s.chip).2 }) := by
  obtain ⟨hwrap, hfit⟩ := area_room p side hn
  have hbase : p.base side = p.start + areaAddr side := rfl
  rw [efPortErase, if_neg (not_not_intro (areaAddr_mod side)), falPartitionErase_eq p.lies hwrap hfit,
    run_chip_bind, ← hbase]
  cases (e.wmFlashErase (p.base side) n).run s.chip with
  | mk r c =>
    cases r with
    | none => rfl
    | some rc =>
      simp only [Powered.run_ite, Powered.run_pure, Option.map_some]
      split <;> rfl

theorem run_efPortWrite (p : EnvPartition e) (s : Ef) {bs : Bytes}
    (hn : bs.length ≤ envUserSettingSize) :
    (efPortWrite e p.part (areaAddr side) bs).run s =
      (((e.wmFlashWrite (p.base side) bs).run s.chip).1.map
          fun rc => if rc < 0 then EfErrCode.writeErr else .noErr,
        { s with chip := ((e.wmFlashWrite (p.base side) bs).run s.chip).2 }) := by
  obtain ⟨hwrap, hfit⟩ := area_room p side hn
  have hbase : p.base side = p.start + areaAddr side := rfl
  rw [efPortWrite, falPartitionWrite_eq p.lies hwrap hfit, run_chip_bind, ← hbase]
  cases (e.wmFlashWrite (p.base side) bs).run s.chip with
  | mk r c =>
    cases r with
    | none => rfl
    | some rc =>
      simp only [Powered.run_ite, Powered.run_pure, Option.map_some]
      split <;> rfl

/-- The erased cells of an area take what is saved. -/
theorem areaHolds_program (p : EnvPartition e) (m : Nor.Cells) {n : Nat} (hn : n < 0x100000000)
    (t : EnvTable) :
    AreaHolds p (Nor.program (Nor.erase e.blkSize m (p.base side) t.size) (p.base side)
      (areaText side n t)) side n t := by
  have hlen := length_areaText side n t
  have herased := Nor.erased_erase e.blkSize_pos m (p.base side) t.size
  rw [← hlen] at herased
  have hread := Nor.read_program_erased herased
  rw [hlen] at hread
  exact ⟨hread, hn⟩

/-- An area whose words are erased does not pass its check. -/
theorem areaBad_erased (p : EnvPartition e) (m : Nor.Cells) (side : Bool) {n : Nat} (hn : 4 ≤ n) :
    AreaBad p (Nor.update m (p.base side) n fun _ => 0xFF) side := by
  have hread : Nor.read (Nor.update m (p.base side) n fun _ => 0xFF) (p.base side) 4 =
      [0xFF, 0xFF, 0xFF, 0xFF] := by
    have h := Nor.read_update (m := m) (a := p.base side) (fun _ => 0xFF) (i := 0) (k := 4) (by omega)
    rw [Int.natCast_zero, Int.add_zero] at h
    rw [h]
    rfl
  refine .inl ?_
  rw [areaEnd, hread]
  cases side <;> decide

/-- However a save ends, it stays in its area. -/
theorem SaveEnds.frame {c c' : Chip} {text : Bytes} {rc : Option EfErrCode} {changed : Bool}
    (h : SaveEnds p c side text rc changed c') (hn : text.length ≤ envUserSettingSize) :
    Nor.AgreeOutside c.cells c'.cells (p.base side) efEraseMinSize := by
  obtain ⟨hstart, hspan⟩ := erase_inside p side hn
  have hle : (envUserSettingSize : Int) ≤ efEraseMinSize := by decide
  have herased : Nor.AgreeOutside c.cells (Nor.erase e.blkSize c.cells (p.base side) text.length)
      (p.base side) efEraseMinSize := by
    refine (Nor.agreeOutside_erase e.blkSize c.cells (p.base side) text.length).mono ?_ ?_ <;> omega
  cases h with
  | done herase hwrite =>
    exact herased.trans ((Nor.agreeOutside_program _ _ _).mono (Int.le_refl _) (by omega))
  | eraseFailed found herase =>
    exact (Nor.agreeOutside_update _ _ _ _).mono (Int.le_refl _) (by omega)
  | eraseCut found herase =>
    exact (Nor.agreeOutside_update _ _ _ _).mono (Int.le_refl _) (by omega)
  | writeFailed found herase hwrite =>
    exact herased.trans ((Nor.agreeOutside_update _ _ _ _).mono (Int.le_refl _) (by omega))
  | writeCut found herase hwrite =>
    exact herased.trans ((Nor.agreeOutside_update _ _ _ _).mono (Int.le_refl _) (by omega))

end

end AreaLemmas

open AreaLemmas

section

variable {e : FlashEnv} {p : EnvPartition e} {s : Ef} {t : EnvTable} {side : Bool}
  {r : Option EfErrCode × Ef}

theorem SaveOutcome.frame (h : SaveOutcome p s t side r) :
    Nor.AgreeOutside s.chip.cells r.2.chip.cells (p.base side) efEraseMinSize := by
  refine AreaLemmas.SaveEnds.frame h.ends ?_
  rw [length_areaText]
  exact Nat.le_of_lt (size_lt t)

/-- The area holds the table, or an erase or a write failed, or power was lost. -/
theorem SaveOutcome.result (h : SaveOutcome p s t side r) :
    (r.1 = some .noErr ∧ r.2.envCacheChanged = false ∧
        AreaHolds p r.2.chip.cells side ((s.word envParamIndexSavedCount + 1) % 0x100000000) t) ∨
      ((∃ k found, e.fate k = .failed found) ∧
        (r.1 = some .eraseErr ∧ r.2.envCacheChanged = true ∨
          r.1 = some .writeErr ∧ r.2.envCacheChanged = false)) ∨
      (∃ k found, e.fate k = .cut found) ∧ r.1 = none := by
  have hends := h.ends
  obtain ⟨rc, s'⟩ := r
  dsimp only at hends ⊢
  generalize hchip : s'.chip = c at hends ⊢
  generalize s'.envCacheChanged = changed at hends ⊢
  cases hends with
  | done herase hwrite =>
    rw [length_areaText]
    exact .inl ⟨rfl, rfl, areaHolds_program p _ (Nat.mod_lt _ (by decide)) t⟩
  | eraseFailed found herase => exact .inr (.inl ⟨⟨_, found, herase⟩, .inl ⟨rfl, rfl⟩⟩)
  | eraseCut found herase => exact .inr (.inr ⟨⟨_, found, herase⟩, rfl⟩)
  | writeFailed found herase hwrite => exact .inr (.inl ⟨⟨_, found, hwrite⟩, .inr ⟨rfl, rfl⟩⟩)
  | writeCut found herase hwrite => exact .inr (.inr ⟨⟨_, found, hwrite⟩, rfl⟩)

/-- What is known before the erase is known after it, however the save ends. -/
theorem Prepared.outcome {s' : Ef} (hp : Prepared s s' t side) {rc : Option EfErrCode}
    {changed : Bool} {c : Chip}
    (hends : SaveEnds p s.chip side
      (areaText side ((s.word envParamIndexSavedCount + 1) % 0x100000000) t) rc changed c) :
    SaveOutcome p s t side (rc, { s' with chip := c, envCacheChanged := changed }) where
  holds := ⟨hp.holds.length, hp.holds.area, hp.holds.endAddr, hp.holds.data⟩
  count := hp.count
  cur := hp.cur
  next := hp.next
  initOk := hp.initOk
  ends := hends

end

/-- A table that is as it was loaded or saved is not saved again. -/
theorem run_efSaveEnv_unchanged (e : FlashEnv) (part : FalPartition) {s : Ef}
    (h : s.envCacheChanged = false) : (efSaveEnv e part).run s = (some .noErr, s) := by
  rw [efSaveEnv, Powered.run_read_bind, if_pos h, Powered.run_pure]

/-- A save of a changed table. -/
theorem run_efSaveEnv {e : FlashEnv} (p : EnvPartition e) {s : Ef} {t : EnvTable} (h : Holds s t)
    {side : Bool} (hnext : s.nextSaveAreaAddr = areaAddr side) (hchanged : s.envCacheChanged = true) :
    SaveOutcome p s t side ((efSaveEnv e p.part).run s) := by
  have hp := prepared_preparedToSave h hnext
  have hchanged' : (preparedToSave s).envCacheChanged = true := hp.changed.trans hchanged
  have htext := length_areaText side ((s.word envParamIndexSavedCount + 1) % 0x100000000) t
  have hsize : t.size ≤ envUserSettingSize := Nat.le_of_lt (size_lt t)
  obtain ⟨hstart, _⟩ := erase_inside p side hsize
  have hrun : (efSaveEnv e p.part).run s = (efPortErase e p.part (areaAddr side) t.size >>=
      fun result => if result = .eraseErr then pure result else do
        let cache ← Powered.read Ef.envCache
        let result ← efPortWrite e p.part (areaAddr side) (cache.take t.size)
        Powered.modify fun s => { s with envCacheChanged := false }
        pure result).run (preparedToSave s) := by
    rw [efSaveEnv, Powered.run_read_bind, if_neg (by rw [hchanged]; decide), Powered.run_read_bind,
      Powered.run_read_bind, hnext, usedSize_eq h]
    simp only [Powered.run_modify_bind]
    rw [← usedSize_eq h, ← hnext]
    rfl
  -- the first operation is the erase, and the write comes only after it
  rw [hrun, Powered.run_bind, run_efPortErase p _ hsize, hp.chip]
  rw [e.erase_sectors, hstart]
  generalize hbytes : areaText side ((s.word envParamIndexSavedCount + 1) % 0x100000000) t = text at htext
  have hends : ∀ {rc changed c}, SaveEnds p s.chip side text rc changed c →
      SaveOutcome p s t side
        (rc, { preparedToSave s with chip := c, envCacheChanged := changed }) := by
    intro rc changed c h
    rw [← hbytes] at h
    exact hp.outcome h
  cases herase : e.fate s.chip.ops with
  | failed found =>
    have hend := hends (.eraseFailed found herase)
    rw [htext, ← hchanged'] at hend
    rw [run_chipOp_failed herase]
    exact hend
  | cut found =>
    have hend := hends (.eraseCut found herase)
    rw [htext, ← hchanged'] at hend
    rw [run_chipOp_cut herase]
    exact hend
  | done =>
    rw [run_chipOp_done herase]
    have hrc : ¬ ((t.size : Int) < 0) := by omega
    have hne : ¬ EfErrCode.noErr = .eraseErr := by decide
    simp only [Option.map_some, if_neg hrc, if_neg hne, Powered.run_read_bind, hp.text, hbytes]
    rw [Powered.run_bind, run_efPortWrite p _ (by rw [htext]; exact hsize)]
    rw [e.write_programs]
    cases hwrite : e.fate (s.chip.ops + 1) with
    | done =>
      have hend := hends (.done herase hwrite)
      rw [htext] at hend
      rw [run_chipOp_done hwrite]
      have hrc' : ¬ ((text.length : Int) < 0) := by omega
      simp only [Option.map_some, if_neg hrc']
      exact hend
    | failed found =>
      have hend := hends (.writeFailed found herase hwrite)
      rw [htext] at hend
      rw [run_chipOp_failed hwrite, htext]
      exact hend
    | cut found =>
      have hend := hends (.writeCut found herase hwrite)
      rw [htext, ← hchanged'] at hend
      rw [run_chipOp_cut hwrite, htext]
      exact hend

end EspushW60x
