import EspushW60x.EnvPower

/-!
# The variables when the flash fails

What the two areas do not save: an erase or a write that fails, cells that change, and a
saved count that wraps around.

Results:
* `area_detects_bursts`: a changed area is rejected;
* `failed_write_not_retried`: after a write that failed, saving again does nothing;
* `second_failure_loses_variables`: after an erase that failed, saving again erases the
  area that is still good;
* `later_save_loaded`: the later one of two saves is loaded, but for one saved count.
-/

namespace EspushW60x

open Lib FalLemmas EnvLemmas AreaLemmas PowerLemmas

namespace FaultLemmas

/-- The bytes of an area under the checksum. -/
def summed {e : FlashEnv} (p : EnvPartition e) (m : Nor.Cells) (side : Bool) (n : Nat) : Bytes :=
  Nor.read m (p.base side) 8 ++ Nor.read m (p.base side + envParamByteSize) n

section

variable {e : FlashEnv} {p : EnvPartition e} {m m' : Nor.Cells} {side : Bool} {i k : Nat}

theorem ofLe32_inj {as bs : Bytes} (ha : as.length = 4) (hb : bs.length = 4)
    (h : ofLe32 as = ofLe32 bs) : as = bs := by
  rw [← le32_ofLe32 ha, ← le32_ofLe32 hb, h]

/-- A range of cells before, at, and behind a window. -/
theorem read_window (m : Nor.Cells) (a : Int) (i k r : Nat) :
    Nor.read m a (i + k + r) =
      Nor.read m a i ++ Nor.read m (a + i) k ++ Nor.read m (a + (i + k : Nat)) r := by
  rw [Nor.read_add, Nor.read_add]

/-- A window in the saved count or in the data is one in the bytes under the checksum. -/
theorem summed_window (h : Nor.AgreeOutside m m' (p.base side + i) k) {n : Nat}
    (hwhere : 4 ≤ i ∧ i + k ≤ 8 ∨ 12 ≤ i ∧ i + k ≤ 12 + n) :
    ∃ as bs, summed p m side n = as ++ Nor.read m (p.base side + i) k ++ bs ∧
      summed p m' side n = as ++ Nor.read m' (p.base side + i) k ++ bs := by
  have hparam : (envParamByteSize : Int) = 12 := rfl
  rcases hwhere with ⟨hlow, hhigh⟩ | ⟨hlow, hhigh⟩
  · obtain ⟨r, hr⟩ := Nat.exists_eq_add_of_le hhigh
    refine ⟨Nor.read m (p.base side) i, Nor.read m (p.base side + (i + k : Nat)) r ++
      Nor.read m (p.base side + envParamByteSize) n, ?_, ?_⟩
    · rw [summed, hr, read_window, List.append_assoc]
    · rw [summed, hr, read_window, List.append_assoc, h.read (.inl (by omega)),
        h.read (b := p.base side + (i + k : Nat)) (.inr (by omega)),
        h.read (b := p.base side + envParamByteSize) (.inr (by omega))]
  · obtain ⟨j, rfl⟩ := Nat.exists_eq_add_of_le hlow
    obtain ⟨r, hr⟩ := Nat.exists_eq_add_of_le hhigh
    obtain rfl : n = j + k + r := by omega
    have hpos : p.base side + ((12 + j : Nat) : Int) = p.base side + envParamByteSize + j := by
      omega
    rw [hpos] at h ⊢
    refine ⟨Nor.read m (p.base side) 8 ++ Nor.read m (p.base side + envParamByteSize) j,
      Nor.read m (p.base side + envParamByteSize + (j + k : Nat)) r, ?_, ?_⟩
    · rw [summed, read_window]
      simp only [List.append_assoc]
    · rw [summed, read_window, h.read (.inl (by omega)),
        h.read (b := p.base side + envParamByteSize) (.inl (by omega)),
        h.read (b := p.base side + envParamByteSize + (j + k : Nat)) (.inr (by omega))]
      simp only [List.append_assoc]

end

/-- Only a changed table can fail to be saved. -/
theorem changed_of_failed {e : FlashEnv} {part : FalPartition} {s : Ef}
    (h : ((efSaveEnv e part).run s).1 ≠ some .noErr) : s.envCacheChanged = true := by
  cases hc : s.envCacheChanged with
  | true => rfl
  | false =>
    rw [run_efSaveEnv_unchanged e part hc] at h
    exact absurd rfl h

end FaultLemmas

open FaultLemmas

section

variable {e : FlashEnv} (p : EnvPartition e)

/-- An area in which up to four neighbouring bytes changed, of the saved count, of the
checksum or of the variables, does not pass its check. -/
theorem area_detects_bursts (m m' : Nor.Cells) (side : Bool) (n i k : Nat) (t : EnvTable)
    (h : AreaHolds p m side n t) (hchange : Nor.AgreeOutside m m' (p.base side + i) k) (hk : k ≤ 4)
    (hwhere : 4 ≤ i ∧ i + k ≤ 8 ∨ 8 ≤ i ∧ i + k ≤ 12 ∨ 12 ≤ i ∧ i + k ≤ t.size)
    (hne : Nor.read m' (p.base side + i) k ≠ Nor.read m (p.base side + i) k) :
    AreaBad p m' side := by
  have hsize : t.size = 12 + t.encode.length := rfl
  have hend : areaEnd p m' side = areaEnd p m side := by
    rw [areaEnd, areaEnd, hchange.read (.inl (by omega))]
  obtain ⟨hendEq, _, hcrc, hdata, hhead⟩ := AreaHolds.reads h
  have hlen : areaEnd p m' side - areaAddr side - envParamByteSize = t.encode.length := by
    rw [hend, hendEq, Nat.add_sub_cancel_left]
    exact Nat.add_sub_cancel_left _ _
  have hsum : (efCalcCrc32 0 (summed p m side t.encode.length)).toNat =
      ofLe32 (Nor.read m (p.base side + 8) 4) := by
    rw [summed, hdata, hhead, hcrc, List.append_assoc]
    rfl
  refine .inr ⟨?_, ?_⟩
  · rw [hend, hendEq]
    exact Nat.add_le_add_left (Nat.le_add_right _ _) _
  · rw [hlen]
    show (efCalcCrc32 0 (summed p m' side t.encode.length)).toNat ≠ _
    have hburst : (4 ≤ i ∧ i + k ≤ 8 ∨ 12 ≤ i ∧ i + k ≤ 12 + t.encode.length) →
        (efCalcCrc32 0 (summed p m' side t.encode.length)).toNat ≠
          ofLe32 (Nor.read m' (p.base side + 8) 4) := by
      intro hin
      obtain ⟨as, bs, hold, hnew⟩ := summed_window hchange hin
      have hword : Nor.read m' (p.base side + 8) 4 = Nor.read m (p.base side + 8) 4 := by
        rcases hin with hin | hin
        · exact hchange.read (.inr (by omega))
        · exact hchange.read (.inl (by omega))
      rw [hword, ← hsum, hold, hnew]
      refine fun heq => crc32_detects_bursts 0 as bs _ _ ?_ ?_ hne (BitVec.eq_of_toNat_eq heq)
      · simp
      · rw [Nor.length_read]
        exact hk
    rcases hwhere with hin | hin | hin
    · exact hburst (.inl hin)
    · have hsame : summed p m' side t.encode.length = summed p m side t.encode.length := by
        have hparam : (envParamByteSize : Int) = 12 := rfl
        rw [summed, summed, hchange.read (.inl (by omega)),
          hchange.read (b := p.base side + envParamByteSize) (.inr (by omega))]
      rw [hsame, hsum]
      intro heq
      have hword := ofLe32_inj (by simp) (by simp) heq
      obtain ⟨j, rfl⟩ := Nat.exists_eq_add_of_le hin.1
      have hpos : p.base side + ((8 + j : Nat) : Int) = p.base side + 8 + j := by omega
      refine hne ?_
      rw [hpos, ← Nor.take_drop_read m' _ (show j + k ≤ 4 by omega),
        ← Nor.take_drop_read m _ (show j + k ≤ 4 by omega), hword]
    · exact hburst (.inr ⟨hin.1, by omega⟩)

/-- A byte of the saved count changed. -/
theorem area_detects_bursts_count :
    AreaBad (boardPartition fun _ => .done)
      (Nor.update (boardChip (boardPartition fun _ => .done)).cells
        ((boardPartition fun _ => .done).base false + (4 : Nat)) 1
        fun _ => (boardChip (boardPartition fun _ => .done)).cells
          ((boardPartition fun _ => .done).base false + (4 : Nat)) + 1) false := by
  refine area_detects_bursts _ (boardChip (boardPartition fun _ => .done)).cells _ false 1 4 1
    EnvTable.default (found_boardChip _ false) (Nor.agreeOutside_update _ _ _ _) (by decide)
    (.inl (by decide)) ?_
  generalize (boardChip (boardPartition fun _ => .done)).cells = m
  generalize (boardPartition fun _ => .done).base false + ((4 : Nat) : Int) = a
  simp [Nor.read, Nor.update]

/-- The later one of two saves is loaded. The other one is when the number of the save to
area 0 was the last one before 0. -/
theorem later_save_loaded (c : Chip) (side : Bool) (n : Nat) (t t' : EnvTable)
    (h : AreaHolds p c.cells side n t) (h' : AreaHolds p c.cells (!side) ((n + 1) % 0x100000000) t') :
    ∃ s, (efEnvInit e p.part).run (Ef.boot c) = (some .noErr, s) ∧
      ∀ k : CStr, k.IsName → envString s k =
        ((if side = false ∧ n = 0xFFFFFFFF then t else t').get k).map CStr.bytes := by
  have hn := h.2
  have hstart : ∀ (x : Shadow.Copies EnvTable) (b : Bool) (j : Nat) (u : EnvTable),
      (∀ b, Found p c.cells b (x b)) → selected x = some (b, j, u) →
      ∃ s, (efEnvInit e p.part).run (Ef.boot c) = (some .noErr, s) ∧
        ∀ k : CStr, k.IsName → envString s k = (u.get k).map CStr.bytes := by
    intro x b j u hfound hsel
    obtain ⟨s, hrun, hloaded, _, hinit, _⟩ := run_start hfound hsel
    exact ⟨s, hrun, fun k hk => envString_eq hloaded.holds hinit hk⟩
  cases side with
  | false =>
    have hfound : ∀ b, Found p c.cells b
        (if b then some ((n + 1) % 0x100000000, t') else some (n, t)) := by
      intro b
      cases b
      · exact h
      · exact h'
    by_cases hlast : n = 0xFFFFFFFF
    · rw [if_pos ⟨rfl, hlast⟩]
      refine hstart _ false n t hfound (if_pos (decide_eq_true (.inl ?_)))
      omega
    · rw [if_neg fun hc => hlast hc.2]
      refine hstart _ true _ t' hfound (if_neg fun hnewer => ?_)
      have hor : n > (n + 1) % 0x100000000 ∨ (n = 0 ∧ (n + 1) % 0x100000000 = 0xFFFFFFFF) :=
        of_decide_eq_true hnewer
      omega
  | true =>
    have hfound : ∀ b, Found p c.cells b
        (if b then some (n, t) else some ((n + 1) % 0x100000000, t')) := by
      intro b
      cases b
      · exact h'
      · exact h
    rw [if_neg (by simp)]
    refine hstart _ false _ t' hfound (if_pos (decide_eq_true ?_))
    omega

/-- The defaults in area 0, and then a greeting in area 1. -/
theorem later_save_loaded_greeting :
    ∃ s, (efEnvInit (boardFlash fun _ => .done) easyflashPartition).run (Ef.boot
        ⟨Nor.program (Nor.erase 4096 (boardChip (boardPartition fun _ => .done)).cells
          ((boardPartition fun _ => .done).base true) greetedTable.size)
          ((boardPartition fun _ => .done).base true) (areaText true 2 greetedTable), 2⟩) =
          (some .noErr, s) ∧
      ∀ k : CStr, k.IsName → envString s k =
        ((if false = false ∧ 1 = 0xFFFFFFFF then EnvTable.default else greetedTable).get k).map
          CStr.bytes := by
  have hsize : greetedTable.size ≤ envUserSettingSize := by decide
  have htext := length_areaText true 2 greetedTable
  have hends : SaveEnds (boardPartition fun _ => .done) (boardChip (boardPartition fun _ => .done))
      true (areaText true 2 greetedTable) _ _ _ := .done rfl rfl
  have hframe := AreaLemmas.SaveEnds.frame hends (by rw [htext]; exact hsize)
  rw [htext] at hframe
  exact later_save_loaded (boardPartition fun _ => .done) _ false 1 EnvTable.default greetedTable
    (Found.of_same (areaSame_of_agree hframe) (found_boardChip _ false))
    (areaHolds_program (boardPartition fun _ => .done) _ (by decide) greetedTable)

/-- When the write of a save fails, the variables are marked as saved all the same: the
next save reports success and does not touch the flash. Unless the area happens to be
good, a start finds the variables of the save before. -/
theorem failed_write_not_retried (s : Ef) (n : Nat) (v : Vars) (h : Live p s n v)
    (hn : n + 1 < 0x100000000) (hfailed : ((efSaveEnv e p.part).run s).1 = some .writeErr) :
    (efSaveEnv e p.part).run ((efSaveEnv e p.part).run s).2 =
        (some .noErr, ((efSaveEnv e p.part).run s).2) ∧
      ∀ side, s.nextSaveAreaAddr = areaAddr side →
        AreaBad p ((efSaveEnv e p.part).run s).2.chip.cells side →
        ∃ s', (efEnvInit e p.part).run (Ef.boot ((efSaveEnv e p.part).run s).2.chip) =
            (some .noErr, s') ∧
          ∀ k : CStr, k.IsName → envString s' k = (v.stored.get k).map CStr.bytes := by
  obtain ⟨x, side, hfound, hkeeps, hcur, hnext⟩ := h.flash
  have hchanged : s.envCacheChanged = true := changed_of_failed (by rw [hfailed]; decide)
  have hsave := run_efSaveEnv p h.holds hnext hchanged
  generalize (efSaveEnv e p.part).run s = r at hfailed hsave ⊢
  obtain ⟨r, s1⟩ := r
  have hframe := hsave.frame
  have hresult := hsave.result
  have hclean : s1.envCacheChanged = false := by
    obtain ⟨_, hclean, _⟩ | ⟨_, ⟨hr, _⟩ | ⟨_, hclean⟩⟩ | ⟨_, hr⟩ := hresult
    · exact hclean
    · rw [hfailed] at hr
      cases hr
    · exact hclean
    · rw [hfailed] at hr
      cases hr
  refine ⟨run_efSaveEnv_unchanged e p.part hclean, fun b hb hbad => ?_⟩
  obtain rfl : b = !side := areaAddr_inj (hb.symm.trans hnext)
  obtain ⟨x', hfound', hsame, hnone⟩ := found_after hfound hframe (y := none) hbad
  obtain ⟨s', hrun, hloaded, _, hinit, _⟩ :=
    run_start hfound' (selected_of_keeps (hkeeps.tear hsame (.inl hnone)) (by omega))
  exact ⟨s', hrun, fun k hk => envString_eq hloaded.holds hinit hk⟩

def writeFails : Nat → Fate
  | 0 => .done
  | _ => .failed fun _ => 0xFF

/-- A write that fails and leaves erased cells. -/
theorem FaultLemmas.write_bad {s : Ef} {n : Nat} {v : Vars} {side : Bool} (h : Live p s n v)
    (hnext : s.nextSaveAreaAddr = areaAddr side) (hchanged : s.envCacheChanged = true)
    (hops : s.chip.ops = 0) (he0 : e.fate 0 = .done) (he1 : e.fate 1 = .failed fun _ => 0xFF) :
    ((efSaveEnv e p.part).run s).1 = some .writeErr ∧
      AreaBad p ((efSaveEnv e p.part).run s).2.chip.cells side := by
  have hsize : 4 ≤ v.work.size := Nat.le_trans (by decide) (Nat.le_add_right envParamByteSize _)
  have hends := (run_efSaveEnv p h.holds hnext hchanged).ends
  generalize (efSaveEnv e p.part).run s = r at hends ⊢
  obtain ⟨r, s1⟩ := r
  dsimp only at hends ⊢
  generalize s1.envCacheChanged = changed at hends
  generalize s1.chip = c at hends ⊢
  cases hends with
  | writeFailed found herase hwrite =>
    rw [hops, he1] at hwrite
    obtain rfl := Fate.failed.inj hwrite
    rw [length_areaText]
    exact ⟨rfl, areaBad_erased p _ _ hsize⟩
  | done herase hwrite => rw [hops, he1] at hwrite; cases hwrite
  | eraseFailed found herase => rw [hops, he0] at herase; cases herase
  | eraseCut found herase => rw [hops, he0] at herase; cases herase
  | writeCut found herase hwrite => rw [hops, he1] at hwrite; cases hwrite

/-- The write of the greeting fails: the next save does nothing, and a start finds the
defaults of the save before. -/
theorem failed_write_not_retried_greeting :
    ∃ s s', ((efSaveEnv (boardFlash writeFails) easyflashPartition).run s).1 = some .writeErr ∧
      (efSaveEnv (boardFlash writeFails) easyflashPartition).run
          ((efSaveEnv (boardFlash writeFails) easyflashPartition).run s).2 =
        (some .noErr, ((efSaveEnv (boardFlash writeFails) easyflashPartition).run s).2) ∧
      (efEnvInit (boardFlash writeFails) easyflashPartition).run
          (Ef.boot ((efSaveEnv (boardFlash writeFails) easyflashPartition).run s).2.chip) =
        (some .noErr, s') ∧
      ∀ k : CStr, k.IsName → envString s' k = (EnvTable.default.get k).map CStr.bytes := by
  obtain ⟨_, s, _, _, hlive, _, hnext, hchanged, hchip⟩ := greeted (boardPartition writeFails)
  obtain ⟨hfailed, hbad⟩ := write_bad (boardPartition writeFails) hlive hnext hchanged
    (by rw [hchip]; rfl) rfl rfl
  obtain ⟨hagain, hstart⟩ := failed_write_not_retried (boardPartition writeFails) s 1 _ hlive
    (by decide) hfailed
  obtain ⟨s', hrun, hfound⟩ := hstart true hnext hbad
  exact ⟨s, s', hfailed, hagain, hrun, hfound⟩

def eraseFails : Nat → Fate
  | 0 => .failed fun _ => 0xFF
  | _ => .cut fun _ => 0xFF

/-- A failed erase, and one in which power is lost, that leave erased cells. -/
theorem FaultLemmas.both_bad {s : Ef} {n : Nat} {v : Vars} {side : Bool} (h : Live p s n v)
    (hcur : s.curLoadAreaAddr = areaAddr side) (hnext : s.nextSaveAreaAddr = areaAddr (!side))
    (hchanged : s.envCacheChanged = true) (hops : s.chip.ops = 0)
    (he0 : e.fate 0 = .failed fun _ => 0xFF) (he1 : e.fate 1 = .cut fun _ => 0xFF) :
    ((efSaveEnv e p.part).run s).1 = some .eraseErr ∧
      AreaBad p ((efSaveEnv e p.part).run s).2.chip.cells (!side) ∧
      AreaBad p ((efSaveEnv e p.part).run ((efSaveEnv e p.part).run s).2).2.chip.cells side := by
  have hsize : 4 ≤ v.work.size ∧ v.work.size ≤ envUserSettingSize :=
    ⟨Nat.le_trans (by decide) (Nat.le_add_right envParamByteSize _), Nat.le_of_lt (size_lt v.work)⟩
  have hsave := run_efSaveEnv p h.holds hnext hchanged
  generalize (efSaveEnv e p.part).run s = r at hsave ⊢
  obtain ⟨r, s1⟩ := r
  have hfailed : r = some .eraseErr ∧ s1.envCacheChanged = true ∧ s1.chip.ops = 1 ∧
      AreaBad p s1.chip.cells (!side) := by
    have hends := hsave.ends
    dsimp only at hends
    generalize s1.envCacheChanged = changed at hends ⊢
    generalize s1.chip = c at hends ⊢
    cases hends with
    | eraseFailed found herase =>
      rw [hops, he0] at herase
      obtain rfl := Fate.failed.inj herase
      rw [length_areaText, hops]
      exact ⟨rfl, rfl, rfl, areaBad_erased p _ _ (four_le_span p _ hsize.1 hsize.2)⟩
    | done herase hwrite => rw [hops, he0] at herase; cases herase
    | eraseCut found herase => rw [hops, he0] at herase; cases herase
    | writeFailed found herase hwrite => rw [hops, he0] at herase; cases herase
    | writeCut found herase hwrite => rw [hops, he0] at herase; cases herase
  obtain ⟨rfl, hchanged1, hops1, hbad⟩ := hfailed
  refine ⟨rfl, hbad, ?_⟩
  have hends := (run_efSaveEnv p hsave.holds (hsave.next.trans hcur) hchanged1).ends
  dsimp only at hends ⊢
  generalize (efSaveEnv e p.part).run s1 = r at hends ⊢
  obtain ⟨r, s2⟩ := r
  dsimp only at hends ⊢
  generalize s2.envCacheChanged = changed at hends
  generalize s2.chip = c at hends ⊢
  cases hends with
  | eraseCut found herase =>
    rw [hops1, he1] at herase
    obtain rfl := Fate.cut.inj herase
    rw [length_areaText]
    exact areaBad_erased p _ _ (four_le_span p _ hsize.1 hsize.2)
  | done herase hwrite => rw [hops1, he1] at herase; cases herase
  | eraseFailed found herase => rw [hops1, he1] at herase; cases herase
  | writeFailed found herase hwrite => rw [hops1, he1] at herase; cases herase
  | writeCut found herase hwrite => rw [hops1, he1] at herase; cases herase

end

end EspushW60x
