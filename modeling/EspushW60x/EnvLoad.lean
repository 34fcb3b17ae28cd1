import EspushW60x.EnvArea

/-!
# Loading the variables

`ef_load_env` checks both areas, takes the one that was saved last, and falls back to
the defaults when neither passes its check.

Results:
* `run_checkArea`: the check of one area;
* `run_efLoadEnv`, `run_efLoadEnv_none`: which area is loaded.
-/

namespace EspushW60x

open Lib FalLemmas EnvLemmas AreaLemmas

/-! ## Loading -/

/-- The area that `ef_load_env` takes. -/
def selected (x : Shadow.Copies EnvTable) : Option (Bool × Nat × EnvTable) :=
  match x false, x true with
  | none, none => none
  | some a, none => some (false, a)
  | none, some b => some (true, b)
  | some a, some b => if newerArea0 a.1 b.1 then some (false, a) else some (true, b)

/-- The table `t`, saved as the `n`-th one, was loaded from an area. -/
structure Loaded (s : Ef) (side : Bool) (n : Nat) (t : EnvTable) : Prop where
  holds : Holds s t
  cur : s.curLoadAreaAddr = areaAddr side
  count : s.word envParamIndexSavedCount = n

/-- What a check of an area leaves alone. -/
structure Untouched (s s' : Ef) : Prop where
  length : s'.envCache.length = s.envCache.length
  changed : s'.envCacheChanged = s.envCacheChanged
  initOk : s'.initOk = s.initOk
  next : s'.nextSaveAreaAddr = s.nextSaveAreaAddr
  chip : s'.chip = s.chip

theorem Untouched.refl (s : Ef) : Untouched s s := ⟨rfl, rfl, rfl, rfl, rfl⟩

theorem Untouched.trans {s s' s'' : Ef} (h : Untouched s s') (h' : Untouched s' s'') :
    Untouched s s'' :=
  ⟨h'.length.trans h.length, h'.changed.trans h.changed, h'.initOk.trans h.initOk,
    h'.next.trans h.next, h'.chip.trans h.chip⟩

namespace AreaLemmas

section

variable {e : FlashEnv} (p : EnvPartition e) (side : Bool)

theorem areaWord_eq (s : Ef) {i : Nat} (hi : i < 4) :
    areaWord e p.part s (areaAddr side) i = ofLe32 (Nor.read s.chip.cells (p.base side + (i * 4 : Nat)) 4) := by
  obtain ⟨hwrap, hfit⟩ := area_room p side (show i * 4 + 4 ≤ envUserSettingSize by
    have : envUserSettingSize = 2048 := rfl
    omega)
  have hpos : p.start + ((areaAddr side + i * 4 : Nat) : Int) = p.base side + (i * 4 : Nat) := by
    unfold EnvPartition.base
    omega
  rw [areaWord, efPortRead, falPartitionRead_eq p.lies _ (by omega) (by omega), hpos,
    patch_eq (Nat.le_of_eq (by rw [e.stale_length, Nor.length_read]))]
  exact ofLe32_append _ (by simp)

/-- The state after an area of `n` bytes was read. -/
def afterRead (s : Ef) (n : Nat) : Ef :=
  { s with
    envCache := patch s.envCache 0 (Nor.read s.chip.cells (p.base side) n),
    curLoadAreaAddr := areaAddr side }

theorem run_readArea (s : Ef) {endAddr : Nat} (hok : areaEndOk (areaAddr side) endAddr = true) :
    (readArea e p.part (areaAddr side) endAddr).run s =
      ((), { s with
        envCache := patch s.envCache 0
          (Nor.read s.chip.cells (p.base side) (endAddr - areaAddr side)) }) := by
  obtain ⟨_, hhigh⟩ := le_of_areaEndOk hok
  obtain ⟨hwrap, hfit⟩ := area_room p side (show endAddr - areaAddr side ≤ envUserSettingSize by omega)
  rw [readArea, Prog.run_modify, efPortRead, falPartitionRead_eq p.lies _ hwrap hfit]
  rfl

/-- What is in `env_cache` after an area with all three words was read. -/
theorem split_afterRead {s : Ef} (hlen : s.envCache.length = envUserSettingSize) {n : Nat}
    (hlow : envParamByteSize ≤ n) (hhigh : n ≤ envUserSettingSize) :
    Split (afterRead p side s n) (Nor.read s.chip.cells (p.base side) 4)
      (Nor.read s.chip.cells (p.base side + 4) 4) (Nor.read s.chip.cells (p.base side + 8) 4)
      (Nor.read s.chip.cells (p.base side + envParamByteSize) (n - envParamByteSize))
      (s.envCache.drop n) := by
  obtain ⟨k, rfl⟩ := Nat.exists_eq_add_of_le hlow
  refine ⟨?_, by simp, by simp, by simp⟩
  have hread : Nor.read s.chip.cells (p.base side) (envParamByteSize + k) =
      Nor.read s.chip.cells (p.base side) 4 ++ (Nor.read s.chip.cells (p.base side + 4) 4 ++
        (Nor.read s.chip.cells (p.base side + 8) 4 ++
          Nor.read s.chip.cells (p.base side + envParamByteSize) k)) := by
    have h12 : Nor.read s.chip.cells (p.base side) envParamByteSize =
        Nor.read s.chip.cells (p.base side) 4 ++ (Nor.read s.chip.cells (p.base side + 4) 4 ++
          Nor.read s.chip.cells (p.base side + 8) 4) := by
      have h48 := Nor.read_add s.chip.cells (p.base side + 4) 4 4
      rw [show p.base side + 4 + ((4 : Nat) : Int) = p.base side + 8 by omega] at h48
      rw [← h48]
      exact Nor.read_add s.chip.cells (p.base side) 4 8
    rw [Nor.read_add, h12]
    simp only [List.append_assoc]
  show patch s.envCache 0 _ = _
  rw [patch_eq (by rw [Nor.length_read, hlen]; omega), hread, Nat.add_sub_cancel_left]
  simp only [List.take_zero, List.nil_append, List.length_append, Nor.length_read,
    List.append_assoc, Nat.zero_add]
  rw [show 4 + (4 + (4 + k)) = envParamByteSize + k by rw [← Nat.add_assoc, ← Nat.add_assoc]; rfl]

section

variable {p : EnvPartition e} {side : Bool}

/-- The check of an area whose three words were read. -/
theorem crc_afterRead {s : Ef} (hlen : s.envCache.length = envUserSettingSize)
    (hok : areaEndOk (areaAddr side) (areaEnd p s.chip.cells side) = true)
    (hlow : areaAddr side + envParamByteSize ≤ areaEnd p s.chip.cells side) :
    envCrcIsOk (afterRead p side s (areaEnd p s.chip.cells side - areaAddr side)) = true ↔
      (efCalcCrc32 0 (Nor.read s.chip.cells (p.base side) 8 ++
        Nor.read s.chip.cells (p.base side + envParamByteSize)
          (areaEnd p s.chip.cells side - areaAddr side - envParamByteSize))).toNat =
        ofLe32 (Nor.read s.chip.cells (p.base side + 8) 4) := by
  obtain ⟨_, hhigh⟩ := le_of_areaEndOk hok
  have hsplit := split_afterRead p side hlen
    (n := areaEnd p s.chip.cells side - areaAddr side) (by omega) (by omega)
  have hsize : getEnvDataSize (afterRead p side s (areaEnd p s.chip.cells side - areaAddr side)) =
      (Nor.read s.chip.cells (p.base side + envParamByteSize)
        (areaEnd p s.chip.cells side - areaAddr side - envParamByteSize)).length := by
    have hend : getEnvEndAddr (afterRead p side s (areaEnd p s.chip.cells side - areaAddr side)) =
        areaEnd p s.chip.cells side := hsplit.word0
    have hdata : getEnvDataAddr (afterRead p side s (areaEnd p s.chip.cells side - areaAddr side)) =
        areaAddr side + envParamByteSize := rfl
    rw [getEnvDataSize, hend, hdata, Nor.length_read]
    split <;> omega
  have hread : Nor.read s.chip.cells (p.base side) 8 =
      Nor.read s.chip.cells (p.base side) 4 ++ Nor.read s.chip.cells (p.base side + 4) 4 :=
    Nor.read_add s.chip.cells (p.base side) 4 4
  rw [envCrcIsOk, decide_eq_true_iff, hsplit.calcEnvCrc hsize, hsplit.word2, hread,
    List.append_assoc]

/-- The words and the data of an area that holds a table. -/
theorem AreaHolds.reads {m : Nor.Cells} {n : Nat} {t : EnvTable} (h : AreaHolds p m side n t) :
    areaEnd p m side = areaAddr side + t.size ∧
      ofLe32 (Nor.read m (p.base side + 4) 4) = n ∧
      ofLe32 (Nor.read m (p.base side + 8) 4) = (areaCrc side n t).toNat ∧
      Nor.read m (p.base side + envParamByteSize) t.encode.length = t.encode ∧
      Nor.read m (p.base side) 8 = le32 (areaAddr side + t.size) ++ le32 n := by
  obtain ⟨htext, hn⟩ := h
  have hsize : t.size = 12 + t.encode.length := rfl
  have hlt := size_lt t
  have haddr := areaAddr_le side
  have hpart : ∀ {i k : Nat}, i + k ≤ t.size →
      Nor.read m (p.base side + i) k = ((areaText side n t).drop i).take k := by
    intro i k hik
    rw [← htext, Nor.take_drop_read m _ hik]
  have harea : envAreaSize = 8192 := rfl
  have hhead : Nor.read m (p.base side) 8 = le32 (areaAddr side + t.size) ++ le32 n := by
    have h8 := hpart (i := 0) (k := 8) (by omega)
    rw [Int.natCast_zero, Int.add_zero] at h8
    rw [h8]
    rfl
  refine ⟨?_, ?_, ?_, ?_, hhead⟩
  · have h4 := hpart (i := 0) (k := 4) (by omega)
    rw [Int.natCast_zero, Int.add_zero] at h4
    have hle : ((areaText side n t).drop 0).take 4 = le32 (areaAddr side + t.size) := rfl
    rw [areaEnd, h4, hle, ofLe32_le32]
    omega
  · have hle : ((areaText side n t).drop 4).take 4 = le32 n := rfl
    rw [show p.base side + 4 = p.base side + ((4 : Nat) : Int) from rfl, hpart (by omega), hle,
      ofLe32_le32, Nat.mod_eq_of_lt hn]
  · have hle : ((areaText side n t).drop 8).take 4 = le32 (areaCrc side n t).toNat := rfl
    rw [show p.base side + 8 = p.base side + ((8 : Nat) : Int) from rfl, hpart (by omega), hle,
      ofLe32_le32, Nat.mod_eq_of_lt (areaCrc side n t).isLt]
  · have hdrop : (areaText side n t).drop envParamByteSize = t.encode := rfl
    rw [hpart (show envParamByteSize + t.encode.length ≤ t.size from Nat.le_refl _), hdrop,
      List.take_length]

/-- An area that holds a table passes its check. -/
theorem AreaHolds.ok {m : Nor.Cells} {n : Nat} {t : EnvTable} (h : AreaHolds p m side n t) :
    areaEndOk (areaAddr side) (areaEnd p m side) = true := by
  have hlt := size_lt t
  have haddr := areaAddr_le side
  rw [(AreaHolds.reads h).1]
  exact areaEndOk_of_le (by omega) (by omega) (by omega)

/-- The table is there after the area was read. -/
theorem AreaHolds.afterRead {s : Ef} {n : Nat} {t : EnvTable}
    (hlen : s.envCache.length = envUserSettingSize) (h : AreaHolds p s.chip.cells side n t) :
    Loaded (afterRead p side s t.size) side n t := by
  obtain ⟨hend, hcount, _, hdata, _⟩ := AreaHolds.reads h
  have hsplit := split_afterRead p side hlen (show envParamByteSize ≤ t.size from Nat.le_add_right _ _)
    (Nat.le_of_lt (size_lt t))
  have hsize : t.size - envParamByteSize = t.encode.length := Nat.add_sub_cancel_left _ _
  rw [hsize, hdata] at hsplit
  have haddr := areaAddr_le side
  refine ⟨hsplit.holds ?_ ?_ hend, rfl, hsplit.word1.trans hcount⟩
  · exact (length_patch _ _ _).trans hlen
  · show areaAddr side ≤ envAreaSize
    omega

/-- The check of one area. -/
theorem run_checkArea {s : Ef} {x : Option (Nat × EnvTable)}
    (hlen : s.envCache.length = envUserSettingSize) (hx : Found p s.chip.cells side x) :
    ∃ s', (checkArea e p.part (areaAddr side) (areaEnd p s.chip.cells side)).run s = (x.isSome, s') ∧
      Untouched s s' ∧ ∀ y, x = some y → Loaded s' side y.1 y.2 := by
  have hrun : areaEndOk (areaAddr side) (areaEnd p s.chip.cells side) = true →
      (checkArea e p.part (areaAddr side) (areaEnd p s.chip.cells side)).run s =
        (envCrcIsOk (afterRead p side s (areaEnd p s.chip.cells side - areaAddr side)),
          afterRead p side s (areaEnd p s.chip.cells side - areaAddr side)) := by
    intro hok
    rw [checkArea, if_pos hok, Prog.run_bind, run_readArea p side s hok]
    rfl
  have huntouched : Untouched s (afterRead p side s (areaEnd p s.chip.cells side - areaAddr side)) :=
    ⟨length_patch _ _ _, rfl, rfl, rfl, rfl⟩
  cases x with
  | none =>
    rcases Bool.eq_false_or_eq_true (areaEndOk (areaAddr side) (areaEnd p s.chip.cells side)) with
      hok | hno
    · have hbad : AreaBad p s.chip.cells side := hx
      rcases hbad with hno | ⟨hlow, hcrc⟩
      · rw [hok] at hno
        cases hno
      · have hwrong := fun h => hcrc ((crc_afterRead hlen hok hlow).mp h)
        refine ⟨_, (hrun hok).trans ?_, huntouched, fun y hy => by cases hy⟩
        rw [Bool.eq_false_iff.mpr hwrong]
        rfl
    · refine ⟨s, ?_, Untouched.refl s, fun y hy => by cases hy⟩
      rw [checkArea, if_neg (by rw [hno]; decide)]
      rfl
  | some y =>
    obtain ⟨n, t⟩ := y
    have hholds : AreaHolds p s.chip.cells side n t := hx
    obtain ⟨hend, hcount, hcrc, hdata, hhead⟩ := AreaHolds.reads hholds
    have hok := AreaHolds.ok hholds
    have hsize : areaEnd p s.chip.cells side - areaAddr side = t.size := by
      rw [hend, Nat.add_sub_cancel_left]
    have hright : envCrcIsOk (afterRead p side s
        (areaEnd p s.chip.cells side - areaAddr side)) = true := by
      refine (crc_afterRead hlen hok ?_).mpr ?_
      · rw [hend]
        exact Nat.add_le_add_left (Nat.le_add_right _ _) _
      · have hdataSize : t.size - envParamByteSize = t.encode.length := Nat.add_sub_cancel_left _ _
        rw [hsize, hdataSize, hdata, hhead, hcrc, List.append_assoc]
        rfl
    refine ⟨_, (hrun hok).trans ?_, huntouched, ?_⟩
    · rw [hright]
      rfl
    · intro y hy
      obtain rfl := Option.some.inj hy
      rw [hsize]
      exact AreaHolds.afterRead hlen hholds

end

/-- The state when both areas were checked. -/
theorem run_efLoadEnv_checks (p : EnvPartition e) {s : Ef} {x : Shadow.Copies EnvTable}
    (hlen : s.envCache.length = envUserSettingSize)
    (hx : ∀ side, Found p s.chip.cells side (x side)) :
    ∃ s', Untouched s s' ∧
      (∀ y, x true = some y → Loaded s' true y.1 y.2) ∧
      (efLoadEnv e p.part).run s =
        (if (x false).isSome &&
            !((x false).isSome && (x true).isSome && !newerArea0
              (areaWord e p.part s' (areaAddr false) envParamIndexSavedCount)
              (areaWord e p.part s' (areaAddr true) envParamIndexSavedCount)) then do
          Powered.modify fun s => { s with
            curLoadAreaAddr := areaAddr false, nextSaveAreaAddr := areaAddr true }
          readArea e p.part (areaAddr false) (areaEnd p s.chip.cells false)
          return EfErrCode.noErr
        else if (x true).isSome then do
          Powered.modify fun s => { s with nextSaveAreaAddr := areaAddr false }
          return EfErrCode.noErr
        else do
          Powered.modify fun s => { s with
            curLoadAreaAddr := areaAddr true, nextSaveAreaAddr := areaAddr false }
          efEnvSetDefault e p.part : Powered Ef EfErrCode).run s' := by
  have hend : ∀ side, areaWord e p.part s (areaAddr side) envParamIndexEndAddr =
      areaEnd p s.chip.cells side := by
    intro side
    rw [areaWord_eq p side s (by decide)]
    simp [areaEnd, envParamIndexEndAddr]
  obtain ⟨s0, hrun0, hun0, _⟩ := run_checkArea (p := p) hlen (hx false)
  have hlen0 : s0.envCache.length = envUserSettingSize := hun0.length.trans hlen
  have hx0 : Found p s0.chip.cells true (x true) := by
    rw [hun0.chip]
    exact hx true
  obtain ⟨s1, hrun1, hun1, hloaded⟩ := run_checkArea (p := p) hlen0 hx0
  rw [hun0.chip] at hrun1
  refine ⟨s1, hun0.trans hun1, hloaded, ?_⟩
  have hend0 : areaWord e p.part s efStartAddr envParamIndexEndAddr = areaEnd p s.chip.cells false :=
    hend false
  have hend1 : areaWord e p.part s (efStartAddr + envAreaSize / 2) envParamIndexEndAddr =
      areaEnd p s.chip.cells true := hend true
  have hrun0' : (checkArea e p.part efStartAddr (areaEnd p s.chip.cells false)).run s =
      ((x false).isSome, s0) := hrun0
  have hrun1' : (checkArea e p.part (efStartAddr + envAreaSize / 2)
      (areaEnd p s.chip.cells true)).run s0 = ((x true).isSome, s1) := hrun1
  unfold efLoadEnv
  dsimp only
  rw [Powered.run_read_bind, Powered.run_read_bind, hend0, hend1, Powered.run_liftProg_bind, hrun0',
    Powered.run_liftProg_bind, hrun1', Powered.run_read_bind]
  simp only [areaAddr]
  rcases Bool.eq_false_or_eq_true (newerArea0
    (areaWord e p.part s1 efStartAddr envParamIndexSavedCount)
    (areaWord e p.part s1 (efStartAddr + envAreaSize / 2) envParamIndexSavedCount)) with hnewer | hnewer <;>
  rcases Bool.eq_false_or_eq_true (x false).isSome with h0 | h0 <;>
  rcases Bool.eq_false_or_eq_true (x true).isSome with h1 | h1 <;>
    simp only [hnewer, h0, h1, Bool.and_true, Bool.and_false, Bool.not_true, Bool.not_false,
      if_true, if_false, Bool.false_eq_true]

end

end AreaLemmas

section

variable {e : FlashEnv} (p : EnvPartition e) {s : Ef} {x : Shadow.Copies EnvTable}

/-- The table in the selected area is loaded, and the other area is saved to next. -/
theorem run_efLoadEnv (hlen : s.envCache.length = envUserSettingSize)
    (hx : ∀ side, Found p s.chip.cells side (x side)) {side : Bool} {n : Nat} {t : EnvTable}
    (hsel : selected x = some (side, n, t)) :
    ∃ s', (efLoadEnv e p.part).run s = (some .noErr, s') ∧ Loaded s' side n t ∧
      s'.nextSaveAreaAddr = areaAddr (!side) ∧ s'.envCacheChanged = s.envCacheChanged ∧
      s'.initOk = s.initOk ∧ s'.chip = s.chip := by
  obtain ⟨s1, hun, hloaded, hrun⟩ := run_efLoadEnv_checks p hlen hx
  have hlen1 : s1.envCache.length = envUserSettingSize := hun.length.trans hlen
  have hcount : ∀ side' n' t', x side' = some (n', t') →
      areaWord e p.part s1 (areaAddr side') envParamIndexSavedCount = n' := by
    intro side' n' t' hsome
    have hholds : AreaHolds p s1.chip.cells side' n' t' := by
      have hfound := hx side'
      rw [hsome] at hfound
      rw [hun.chip]
      exact hfound
    rw [areaWord_eq p side' s1 (by decide)]
    exact (AreaHolds.reads hholds).2.1
  -- area 0 is read again, as area 1 was read after it
  have hload0 : ∀ n t, x false = some (n, t) →
      ∃ s', (do
        Powered.modify fun s => { s with
          curLoadAreaAddr := areaAddr false, nextSaveAreaAddr := areaAddr true }
        readArea e p.part (areaAddr false) (areaEnd p s.chip.cells false)
        return EfErrCode.noErr : Powered Ef EfErrCode).run s1 = (some .noErr, s') ∧
      Loaded s' false n t ∧ s'.nextSaveAreaAddr = areaAddr true ∧
      s'.envCacheChanged = s.envCacheChanged ∧ s'.initOk = s.initOk ∧ s'.chip = s.chip := by
    intro n t hsome
    have hholds : AreaHolds p s.chip.cells false n t := by
      have hfound := hx false
      rw [hsome] at hfound
      exact hfound
    let s2 : Ef := { s1 with
      curLoadAreaAddr := areaAddr false, nextSaveAreaAddr := areaAddr true }
    have hchip : s2.chip = s.chip := hun.chip
    have hread := run_readArea p false s2 (AreaHolds.ok hholds)
    have hsize : areaEnd p s.chip.cells false - areaAddr false = t.size := by
      rw [(AreaHolds.reads hholds).1, Nat.add_sub_cancel_left]
    rw [hsize] at hread
    rw [← hchip] at hholds
    refine ⟨afterRead p false s2 t.size, ?_, AreaHolds.afterRead hlen1 hholds, rfl, hun.changed,
      hun.initOk, hun.chip⟩
    rw [Powered.run_modify_bind, Powered.run_liftProg_bind, hread]
    rfl
  have hload1 : ∀ n t, x true = some (n, t) →
      ∃ s', (do
        Powered.modify fun s => { s with nextSaveAreaAddr := areaAddr false }
        return EfErrCode.noErr : Powered Ef EfErrCode).run s1 = (some .noErr, s') ∧
      Loaded s' true n t ∧ s'.nextSaveAreaAddr = areaAddr false ∧
      s'.envCacheChanged = s.envCacheChanged ∧ s'.initOk = s.initOk ∧ s'.chip = s.chip := by
    intro n t hsome
    obtain ⟨hholds, hcur, hword⟩ := hloaded _ hsome
    exact ⟨_, rfl, ⟨⟨hholds.length, hholds.area, hholds.endAddr, hholds.data⟩, hcur, hword⟩, rfl,
      hun.changed, hun.initOk, hun.chip⟩
  unfold selected at hsel
  cases h0 : x false with
  | none =>
    cases h1 : x true with
    | none =>
      rw [h0, h1] at hsel
      cases hsel
    | some b =>
      rw [h0, h1] at hsel
      obtain ⟨rfl, rfl⟩ := Prod.mk.inj (Option.some.inj hsel)
      obtain ⟨s', hrun', h⟩ := hload1 n t h1
      refine ⟨s', ?_, h⟩
      rw [hrun, h0, h1]
      exact hrun'
  | some a =>
    cases h1 : x true with
    | none =>
      rw [h0, h1] at hsel
      obtain ⟨rfl, rfl⟩ := Prod.mk.inj (Option.some.inj hsel)
      obtain ⟨s', hrun', h⟩ := hload0 n t h0
      refine ⟨s', ?_, h⟩
      rw [hrun, h0, h1]
      exact hrun'
    | some b =>
      rw [h0, h1] at hsel hrun
      rw [hcount false a.1 a.2 h0, hcount true b.1 b.2 h1] at hrun
      dsimp only at hsel
      cases hnewer : newerArea0 a.1 b.1 with
      | true =>
        rw [hnewer, if_pos rfl] at hsel
        obtain ⟨rfl, rfl⟩ := Prod.mk.inj (Option.some.inj hsel)
        obtain ⟨s', hrun', h⟩ := hload0 n t h0
        refine ⟨s', ?_, h⟩
        rw [hrun, hnewer]
        exact hrun'
      | false =>
        rw [hnewer, if_neg (by decide)] at hsel
        obtain ⟨rfl, rfl⟩ := Prod.mk.inj (Option.some.inj hsel)
        obtain ⟨s', hrun', h⟩ := hload1 n t h1
        refine ⟨s', ?_, h⟩
        rw [hrun, hnewer]
        exact hrun'

/-- Two bad areas are set to the defaults. -/
theorem run_efLoadEnv_none (hlen : s.envCache.length = envUserSettingSize)
    (hx : ∀ side, Found p s.chip.cells side none) :
    ∃ s', (efLoadEnv e p.part).run s = (efEnvSetDefault e p.part).run s' ∧
      s'.envCache.length = envUserSettingSize ∧ s'.curLoadAreaAddr = areaAddr true ∧
      s'.nextSaveAreaAddr = areaAddr false ∧ s'.envCacheChanged = s.envCacheChanged ∧
      s'.initOk = s.initOk ∧ s'.chip = s.chip := by
  obtain ⟨s1, hun, _, hrun⟩ := run_efLoadEnv_checks (x := fun _ => none) p hlen hx
  rw [if_neg (by simp), if_neg (by simp), Powered.run_modify_bind] at hrun
  exact ⟨_, hrun, hun.length.trans hlen, rfl, rfl, hun.changed, hun.initOk, hun.chip⟩

end

end EspushW60x
