import EspushW60x.EnvTable

/-!
# The variables in memory

`Holds s t` says that `env_cache` has the table `t`. Setting, deleting and looking up a
variable there is what setting, deleting and looking it up in the table is.

Results:
* `findEnv_eq`: where a variable is found;
* `run_createEnv`, `run_delEnv`, `run_efSetEnv`: one operation on the table;
* `env_refines_table`: any run of operations.
-/

namespace EspushW60x

open Lib

/-- `env_cache` holds the table. -/
structure Holds (s : Ef) (t : EnvTable) : Prop where
  length : s.envCache.length = envUserSettingSize
  area : s.curLoadAreaAddr ≤ envAreaSize
  endAddr : getEnvEndAddr s = s.curLoadAreaAddr + t.size
  data : (s.envCache.drop envParamByteSize).take t.encode.length = t.encode

/-- From `s` with table `t` to `s'` with table `t'` by changes in memory only; a changed
table is marked as changed. -/
structure Edits (s s' : Ef) (t t' : EnvTable) : Prop where
  holds : Holds s' t'
  initOk : s'.initOk = s.initOk
  cur : s'.curLoadAreaAddr = s.curLoadAreaAddr
  next : s'.nextSaveAreaAddr = s.nextSaveAreaAddr
  chip : s'.chip = s.chip
  savedCount : s'.word envParamIndexSavedCount = s.word envParamIndexSavedCount
  changed : s'.envCacheChanged = true ∨ s'.envCacheChanged = s.envCacheChanged ∧ t' = t

theorem Edits.refl {s : Ef} {t : EnvTable} (h : Holds s t) : Edits s s t t :=
  ⟨h, rfl, rfl, rfl, rfl, rfl, .inr ⟨rfl, rfl⟩⟩

theorem Edits.trans {s s' s'' : Ef} {t t' t'' : EnvTable} (h : Edits s s' t t')
    (h' : Edits s' s'' t' t'') : Edits s s'' t t'' where
  holds := h'.holds
  initOk := h'.initOk.trans h.initOk
  cur := h'.cur.trans h.cur
  next := h'.next.trans h.next
  chip := h'.chip.trans h.chip
  savedCount := h'.savedCount.trans h.savedCount
  changed := by
    rcases h'.changed with h2 | ⟨h2, rfl⟩
    · exact .inl h2
    · rcases h.changed with h1 | ⟨h1, rfl⟩
      · exact .inl (h2.trans h1)
      · exact .inr ⟨h2.trans h1, rfl⟩

namespace EnvLemmas

theorem sub32_of_le {a b : Nat} (h : b ≤ a) (ha : a < 0x100000000) : sub32 a b = a - b := by
  unfold sub32
  omega

/-! ## Words -/

theorem word_setWord_self (s : Ef) {i : Nat} (n : Nat) (h : 4 * i + 4 ≤ s.envCache.length) :
    (s.setWord i n).word i = n % 0x100000000 := by
  have htake : (s.envCache.take (4 * i)).length = 4 * i := by
    rw [List.length_take]
    omega
  show ofLe32 ((patch s.envCache (4 * i) (le32 n)).drop (4 * i)) = _
  rw [patch_eq (by rw [length_le32]; exact h), List.append_assoc, List.drop_left' htake,
    ofLe32_le32_append]

theorem word_setWord_ne (s : Ef) {i j : Nat} (n : Nat) (h : j ≠ i) :
    (s.setWord i n).word j = s.word j := by
  show ofLe32 ((patch s.envCache (4 * i) (le32 n)).drop (4 * j)) = ofLe32 (s.envCache.drop (4 * j))
  rcases Nat.lt_or_gt_of_ne h with hlt | hgt
  · exact ofLe32_drop_patch_of_le _ (by omega)
  · rw [drop_patch _ (by rw [length_le32]; omega)]

section Sizes

variable {s : Ef} {t : EnvTable}

theorem size_lt (t : EnvTable) : t.size < envUserSettingSize := t.fits

theorem size_eq (t : EnvTable) : t.size = envParamByteSize + t.encode.length := rfl

theorem size_pos (t : EnvTable) : 0 < t.size := Nat.lt_of_lt_of_le (by decide) (Nat.le_add_right _ _)

theorem usedSize_eq (h : Holds s t) : getEnvUserUsedSize s = t.size := by
  have hpos := size_pos t
  rw [getEnvUserUsedSize, h.endAddr, getEnvSystemAddr, if_pos (by omega), Nat.add_sub_cancel_left]

theorem dataSize_eq (h : Holds s t) : getEnvDataSize s = t.encode.length := by
  have hsize := size_eq t
  rw [getEnvDataSize, h.endAddr, getEnvDataAddr, getEnvSystemAddr]
  split <;> omega

/-- The data, and what is behind them. -/
theorem drop_data (h : Holds s t) :
    s.envCache.drop envParamByteSize = t.encode ++ s.envCache.drop t.size := by
  have hsplit := List.take_append_drop t.encode.length (s.envCache.drop envParamByteSize)
  rw [h.data, List.drop_drop] at hsplit
  exact hsplit.symm

end Sizes

/-! ## Looking up -/

theorem byteAt_drop (m : Bytes) (i j : Nat) : byteAt (m.drop i) j = byteAt m (i + j) := by
  simp [byteAt, List.getElem?_drop]

/-- The loop of `find_env` goes over the entries up to the first that is hit. -/
theorem findEnvFrom_eq (k : CStr) {xs : List (CStr × CStr)} {cache slack : Bytes} {env n : Nat}
    (hcache : cache.drop env = encodeEnv xs ++ slack) (hn : xs.length ≤ n) :
    ((∀ x ∈ xs, ¬ Hit k.bytes x) →
        findEnvFrom cache k.bytes (env + (encodeEnv xs).length) n env = none) ∧
      ∀ pre x post, xs = pre ++ x :: post → (∀ y ∈ pre, ¬ Hit k.bytes y) → Hit k.bytes x →
        findEnvFrom cache k.bytes (env + (encodeEnv xs).length) n env =
          some (env + (encodeEnv pre).length) := by
  induction xs generalizing env n with
  | nil =>
    constructor
    · intro _
      cases n with
      | zero => rfl
      | succ n => exact if_neg (Nat.lt_irrefl env)
    · intro pre x post hsplit
      cases pre <;> cases hsplit
  | cons x xs ih =>
    obtain ⟨n, rfl⟩ := Nat.exists_eq_add_of_le' (Nat.le_trans (Nat.succ_pos xs.length) hn)
    have hentry := length_envEntry x
    have hpos := le_wordAlign ((envText x).length + 1)
    rw [encodeEnv_cons, List.append_assoc] at hcache
    have hlt : env < env + (encodeEnv (x :: xs)).length := by
      rw [encodeEnv_cons, List.length_append]
      omega
    have hnext : env + wordAlign ((cString (cache.drop env)).length + 1) =
        env + (envEntry x).length := by
      rw [hcache, cString_envEntry, hentry]
    have hcmp : ((cache.drop env).take k.bytes.length = k.bytes ∧
        byteAt cache (env + k.bytes.length) = '='.toUInt8) ↔ Hit k.bytes x := by
      rw [← byteAt_drop, hcache]
      exact compare_iff_hit k x _
    have hrest : cache.drop (env + (envEntry x).length) = encodeEnv xs ++ slack := by
      rw [← List.drop_drop, hcache, List.drop_left' rfl]
    have hend : env + (encodeEnv (x :: xs)).length =
        env + (envEntry x).length + (encodeEnv xs).length := by
      rw [encodeEnv_cons, List.length_append, Nat.add_assoc]
    obtain ⟨ihnone, ihsome⟩ := ih hrest (Nat.le_of_succ_le_succ hn)
    constructor
    · intro hno
      rw [findEnvFrom, if_pos hlt, if_neg fun h => hno x List.mem_cons_self (hcmp.mp h), hnext, hend]
      exact ihnone fun y hy => hno y (List.mem_cons_of_mem _ hy)
    · intro pre y post hsplit hpre hhit
      rw [findEnvFrom, if_pos hlt]
      obtain _ | ⟨z, pre⟩ := pre
      · obtain ⟨rfl, _⟩ := List.cons.inj hsplit
        rw [if_pos (hcmp.mpr hhit)]
        rfl
      · obtain ⟨rfl, hsplit'⟩ := List.cons.inj hsplit
        rw [if_neg fun h => hpre x List.mem_cons_self (hcmp.mp h), hnext, hend,
          ihsome pre y post hsplit' (fun z hz => hpre z (List.mem_cons_of_mem _ hz)) hhit,
          encodeEnv_cons, List.length_append, Nat.add_assoc]

end EnvLemmas

open EnvLemmas

section

variable {s : Ef} {t : EnvTable}

/-- A name that is in the table is found at its entry, another one is not found. -/
theorem findEnv_eq (h : Holds s t) {k : CStr} (hk : k.IsName) :
    (t.get k = none → findEnv s k = none) ∧
      ∀ v pre post, t.vars.entries = pre ++ (k, v) :: post → (∀ x ∈ pre, x.1 ≠ k) →
        findEnv s k = some (envParamByteSize + (encodeEnv pre).length) := by
  have hused := usedSize_eq h
  have hfind : t.vars.entries ≠ [] →
      findEnv s k = findEnvFrom s.envCache k.bytes (envParamByteSize + t.encode.length) t.size
        envParamByteSize := by
    intro hne
    have hlen := length_le_length_encodeEnv t.vars.entries
    have hpos := List.length_pos_iff.mpr hne
    have hsize : envParamByteSize ≠ getEnvUserUsedSize s := by
      rw [hused, size_eq]
      show _ ≠ _ + (encodeEnv t.vars.entries).length
      omega
    rw [findEnv, if_neg hk.1]
    show (if envParamByteSize = getEnvUserUsedSize s then _ else _) = _
    rw [if_neg hsize, hused]
    rfl
  have hn : t.vars.entries.length ≤ t.size :=
    Nat.le_trans (length_le_length_encodeEnv _) (Nat.le_add_left _ _)
  obtain ⟨hnone, hsome⟩ := findEnvFrom_eq k (drop_data h) hn
  constructor
  · intro hget
    have hno := Dict.get_eq_none_iff.mp hget
    by_cases hne : t.vars.entries = []
    · have hsize : envParamByteSize = getEnvUserUsedSize s := by
        rw [hused, size_eq, EnvTable.encode, hne]
        rfl
      rw [findEnv, if_neg hk.1]
      exact if_pos hsize
    · rw [hfind hne]
      exact hnone fun x hx hhit => hno x hx ((hit_iff hk (t.names x hx)).mp hhit)
  · intro v pre post hsplit hpre
    have hmem : ∀ x, x ∈ pre ++ (k, v) :: post → x.1.IsName := fun x hx =>
      t.names x (hsplit ▸ hx)
    rw [hfind (by rw [hsplit]; simp)]
    refine hsome pre (k, v) post hsplit (fun x hx hhit => ?_) ?_
    · exact hpre x hx ((hit_iff hk (hmem x (List.mem_append_left _ hx))).mp hhit)
    · exact (hit_iff hk hk).mpr rfl

/-- The string that `ef_get_env` points to. -/
def envString (s : Ef) (k : CStr) : Option Bytes :=
  (efGetEnv s k).map fun p => cString (s.envCache.drop p)

namespace EnvLemmas

/-- The entry of a variable in the cache. -/
theorem drop_entry (h : Holds s t) {k v : CStr} {pre post : List (CStr × CStr)}
    (hsplit : t.vars.entries = pre ++ (k, v) :: post) :
    s.envCache.drop (envParamByteSize + (encodeEnv pre).length) =
      envEntry (k, v) ++ (encodeEnv post ++ s.envCache.drop t.size) := by
  rw [← List.drop_drop, drop_data h, EnvTable.encode, hsplit, encodeEnv_append, encodeEnv_cons,
    List.append_assoc, List.append_assoc, List.drop_left' rfl]

/-- The value in the entry of a variable. -/
theorem cString_envValue (h : Holds s t) {k v : CStr} (hk : k.IsName)
    {pre post : List (CStr × CStr)} (hsplit : t.vars.entries = pre ++ (k, v) :: post) :
    cString (s.envCache.drop (envValue s.envCache (envParamByteSize + (encodeEnv pre).length))) =
      v.bytes := by
  have hdrop := drop_entry h hsplit
  obtain ⟨pad, hpad⟩ := envEntry_eq (k, v)
  have htext : (envText (k, v)).idxOf '='.toUInt8 = k.bytes.length := idxOf_eq_envText hk
  rw [envValue, hdrop, cString_envEntry, htext, Nat.add_assoc, ← List.drop_drop, hdrop, hpad,
    envText, List.append_assoc, List.append_assoc]
  have hkey : (k.bytes ++ ('='.toUInt8 :: v.bytes ++
      (0 :: pad ++ (encodeEnv post ++ s.envCache.drop t.size)))).drop (k.bytes.length + 1) =
      v.bytes ++ 0 :: (pad ++ (encodeEnv post ++ s.envCache.drop t.size)) := by
    rw [← List.drop_drop, List.drop_left' rfl]
    rfl
  rw [hkey]
  exact cString_append v.ne_zero _

end EnvLemmas

/-- A lookup finds the value in the table. -/
theorem envString_eq (h : Holds s t) (hinit : s.initOk = true) {k : CStr} (hk : k.IsName) :
    envString s k = (t.get k).map CStr.bytes := by
  rw [envString, efGetEnv, if_neg (by rw [hinit]; decide)]
  cases hget : t.get k with
  | none =>
    rw [(findEnv_eq h hk).1 hget]
    rfl
  | some v =>
    obtain ⟨pre, post, hsplit, hpre⟩ := Dict.split_of_get hget
    rw [(findEnv_eq h hk).2 v pre post hsplit hpre]
    exact congrArg some (cString_envValue h hk hsplit)

/-! ## Changing the table -/

namespace EnvLemmas

/-- A change of the data: the words but the end address are as before, and what is in use
is `bs`. -/
theorem holds_of_data {s' : Ef} {t' : EnvTable} {m : Bytes} (hlen : m.length = envUserSettingSize)
    (harea : s'.curLoadAreaAddr ≤ envAreaSize)
    (hdata : (m.drop envParamByteSize).take t'.encode.length = t'.encode)
    (hcache : s'.envCache = patch m 0 (le32 (s'.curLoadAreaAddr + t'.size))) : Holds s' t' where
  length := by rw [hcache, length_patch, hlen]
  area := harea
  endAddr := by
    have hlt := size_lt t'
    have hsize : s'.curLoadAreaAddr + t'.size < 0x100000000 := by
      have h1 : envAreaSize = 8192 := rfl
      have h2 : envUserSettingSize = 2048 := rfl
      omega
    show ofLe32 (s'.envCache.drop (4 * 0)) = _
    rw [hcache, patch_eq (by rw [length_le32, hlen]; decide), List.take_zero, List.nil_append,
      Nat.mul_zero, List.drop_zero, ofLe32_le32_append, Nat.mod_eq_of_lt hsize]
  data := by
    rw [hcache, drop_patch _ (by rw [length_le32]; decide), hdata]

/-- The end address is the only word that a change of the data touches. -/
theorem savedCount_of_data {s : Ef} {m : Bytes} {off n : Nat} (bs : Bytes)
    (hoff : envParamByteSize ≤ off) (hm : m = patch (patch s.envCache off bs) 0 (le32 n)) :
    ofLe32 (m.drop (4 * envParamIndexSavedCount)) = s.word envParamIndexSavedCount := by
  have h12 : envParamByteSize = 12 := rfl
  rw [hm, drop_patch _ (by rw [length_le32]; decide), ofLe32_drop_patch_of_le _ (by
    show 4 * 1 + 4 ≤ off
    omega)]
  rfl

/-- The five stores of `write_env` are one. -/
theorem patch_envEntry {m : Bytes} {used : Nat} (k v : CStr)
    (hfit : used + (envEntry (k, v)).length ≤ m.length) :
    patch (patch (patch (patch (patch m used k.bytes) (used + k.bytes.length) ['='.toUInt8])
        (used + k.bytes.length + 1) v.bytes) (used + k.bytes.length + 1 + v.bytes.length) [0])
        (used + k.bytes.length + 1 + v.bytes.length + 1)
        (List.replicate (wordAlign (k.bytes.length + v.bytes.length + 2) -
          (k.bytes.length + v.bytes.length + 2)) 0) =
      patch m used (envEntry (k, v)) := by
  have htext := length_envText k v
  have halign := le_wordAlign (k.bytes.length + v.bytes.length + 2)
  have hlen := length_envEntry (k, v)
  rw [htext] at hlen
  have hpad : wordAlign ((envText (k, v)).length + 1) - (envText (k, v)).length =
      (wordAlign (k.bytes.length + v.bytes.length + 2) - (k.bytes.length + v.bytes.length + 2)) + 1 := by
    rw [htext]
    omega
  generalize hn : wordAlign (k.bytes.length + v.bytes.length + 2) -
    (k.bytes.length + v.bytes.length + 2) = n at hpad
  have hentry : envEntry (k, v) =
      k.bytes ++ ['='.toUInt8] ++ v.bytes ++ [0] ++ List.replicate n 0 := by
    rw [envEntry, hpad, List.replicate_succ, envText]
    simp
  rw [hlen] at hfit
  have hkey : patch (patch m used k.bytes) (used + k.bytes.length) ['='.toUInt8] =
      patch m used (k.bytes ++ ['='.toUInt8]) :=
    patch_patch_at rfl (by rw [List.length_singleton]; omega)
  have hvalue : patch (patch m used (k.bytes ++ ['='.toUInt8])) (used + k.bytes.length + 1) v.bytes =
      patch m used (k.bytes ++ ['='.toUInt8] ++ v.bytes) :=
    patch_patch_at (by rw [List.length_append]; rfl) (by omega)
  have hnul : patch (patch m used (k.bytes ++ ['='.toUInt8] ++ v.bytes))
      (used + k.bytes.length + 1 + v.bytes.length) [0] =
      patch m used (k.bytes ++ ['='.toUInt8] ++ v.bytes ++ [0]) :=
    patch_patch_at (by simp only [List.length_append, List.length_singleton]; omega)
      (by rw [List.length_singleton]; omega)
  have hzeros : patch (patch m used (k.bytes ++ ['='.toUInt8] ++ v.bytes ++ [0]))
      (used + k.bytes.length + 1 + v.bytes.length + 1) (List.replicate n 0) =
      patch m used (k.bytes ++ ['='.toUInt8] ++ v.bytes ++ [0] ++ List.replicate n 0) :=
    patch_patch_at (by simp only [List.length_append, List.length_singleton]; omega)
      (by rw [List.length_replicate]; omega)
  rw [hkey, hvalue, hnul, hzeros, hentry]

/-- `write_env` when there is room. -/
theorem run_writeEnv (h : Holds s t) {k v : CStr}
    (hfit : (envEntry (k, v)).length + t.size < envUserSettingSize) :
    (writeEnv k v).run s = (.noErr, { s with
      envCache := patch (patch s.envCache t.size (envEntry (k, v))) 0
        (le32 (s.curLoadAreaAddr + t.size + (envEntry (k, v)).length))
      envCacheChanged := true }) := by
  have hlen := length_envEntry (k, v)
  have htext := length_envText k v
  rw [htext] at hlen
  have hroom : ¬ wordAlign (k.bytes.length + v.bytes.length + 2) + t.size ≥ envUserSettingSize := by
    omega
  have hfit : t.size + (envEntry (k, v)).length ≤ s.envCache.length := by
    rw [h.length]
    omega
  have hpatch := patch_envEntry k v hfit
  have hend : ofLe32 ((patch s.envCache t.size (envEntry (k, v))).drop (4 * 0)) =
      s.curLoadAreaAddr + t.size := by
    rw [ofLe32_drop_patch_of_le _ (by
      have h12 : envParamByteSize = 12 := rfl
      have hsize := size_eq t
      omega)]
    exact h.endAddr
  rw [← hlen] at hroom hpatch
  simp only [writeEnv, Prog.run_bind, Prog.run_read, Prog.run_modify, Prog.run_pure,
    usedSize_eq h, ← hlen, if_neg hroom, setEnvEndAddr, getEnvEndAddr, Ef.setWord, Ef.word,
    envParamIndexEndAddr, hpatch, hend, Nat.mul_zero]

/-- `write_env` when there is none. -/
theorem run_writeEnv_full (h : Holds s t) {k v : CStr}
    (hfull : ¬ (envEntry (k, v)).length + t.size < envUserSettingSize) :
    (writeEnv k v).run s = (.envFull, s) := by
  have hlen := length_envEntry (k, v)
  have htext := length_envText k v
  rw [htext] at hlen
  have hroom : wordAlign (k.bytes.length + v.bytes.length + 2) + t.size ≥ envUserSettingSize := by
    omega
  simp only [writeEnv, Prog.run_bind, Prog.run_read, usedSize_eq h, if_pos hroom, Prog.run_pure]

/-- `env_cache` with an entry behind the others. -/
theorem data_add {m : Bytes} {t : EnvTable} {bs : Bytes} (hlen : m.length = envUserSettingSize)
    (hdata : (m.drop envParamByteSize).take t.encode.length = t.encode)
    (hfit : t.size + bs.length ≤ envUserSettingSize) :
    ((patch m t.size bs).drop envParamByteSize).take (t.encode ++ bs).length = t.encode ++ bs := by
  have hsize := size_eq t
  have htake : (patch m t.size bs).take (t.size + bs.length) = m.take t.size ++ bs :=
    take_patch (by rw [hlen]; exact hfit)
  have hhead : (m.take t.size).drop envParamByteSize = t.encode := by
    rw [hsize, ← List.take_drop, hdata]
  rw [List.take_drop, List.length_append, ← Nat.add_assoc, ← hsize, htake,
    List.drop_append_of_le_length (by rw [List.length_take, hlen]; omega), hhead]

/-- `env_cache` after the data behind an entry moved down over it. -/
theorem data_del {m : Bytes} {pre mid post : Bytes}
    (hlen : envParamByteSize + (pre ++ (mid ++ post)).length ≤ m.length)
    (hdata : (m.drop envParamByteSize).take (pre ++ (mid ++ post)).length = pre ++ (mid ++ post)) :
    ((patch m (envParamByteSize + pre.length)
        ((m.drop (envParamByteSize + pre.length + mid.length)).take post.length)).drop
        envParamByteSize).take (pre ++ post).length = pre ++ post := by
  have hrest : (m.drop (envParamByteSize + pre.length + mid.length)).take post.length = post := by
    have hlen : (pre ++ (mid ++ post)).length - (pre.length + mid.length) = post.length := by
      simp only [List.length_append]
      omega
    rw [← hlen, Nat.add_assoc, ← List.drop_drop, ← List.drop_take, hdata, ← List.drop_drop,
      List.drop_left' rfl, List.drop_left' rfl]
  have hpre : (m.take (envParamByteSize + pre.length)).drop envParamByteSize = pre := by
    have hcut := congrArg (List.take pre.length) hdata
    rw [List.take_take, List.take_left' rfl, List.length_append,
      Nat.min_eq_left (Nat.le_add_right _ _)] at hcut
    rw [← List.take_drop, hcut]
  simp only [List.length_append] at hlen
  rw [hrest, List.take_drop, List.length_append, ← Nat.add_assoc, take_patch (by omega),
    List.drop_append_of_le_length (by rw [List.length_take]; omega), hpre]

/-- A change of the data that was written back with its end address. -/
theorem edits_of_data {t' : EnvTable} (h : Holds s t) {off : Nat} {bs : Bytes}
    (hoff : envParamByteSize ≤ off)
    (hdata : ((patch s.envCache off bs).drop envParamByteSize).take t'.encode.length = t'.encode) :
    Edits s { s with
      envCache := patch (patch s.envCache off bs) 0 (le32 (s.curLoadAreaAddr + t'.size))
      envCacheChanged := true } t t' where
  holds := holds_of_data (by rw [length_patch, h.length]) h.area hdata rfl
  initOk := rfl
  cur := rfl
  next := rfl
  chip := rfl
  savedCount := savedCount_of_data bs hoff rfl
  changed := .inl rfl

/-- `write_env`, for a name that is not in the table. -/
theorem edits_writeEnv (h : Holds s t) {k v : CStr} (hname : k.IsName) (hnew : t.get k = none) :
    ((writeEnv k v).run s).1 = (t.create k v).1 ∧
      Edits s ((writeEnv k v).run s).2 t (t.create k v).2 := by
  by_cases hfit : (envEntry (k, v)).length + t.size < envUserSettingSize
  · rw [run_writeEnv h hfit, EnvTable.create_eq_add hname hnew hfit]
    refine ⟨rfl, ?_⟩
    have hencode := EnvTable.encode_add t k v hname hnew hfit
    have hsize : (t.add k v hname hnew hfit).size = t.size + (envEntry (k, v)).length := by
      rw [size_eq, size_eq t, hencode, List.length_append, ← Nat.add_assoc]
    have hdata : ((patch s.envCache t.size (envEntry (k, v))).drop envParamByteSize).take
        (t.add k v hname hnew hfit).encode.length = (t.add k v hname hnew hfit).encode := by
      rw [hencode]
      exact data_add h.length h.data (by omega)
    rw [Nat.add_assoc, ← hsize]
    exact edits_of_data h (Nat.le_add_right _ _) hdata
  · rw [run_writeEnv_full h hfit, EnvTable.create_full hname hnew hfit]
    exact ⟨rfl, Edits.refl h⟩

end EnvLemmas

/-- `create_env` creates the variable in the table. -/
theorem run_createEnv (h : Holds s t) (k v : CStr) :
    ((createEnv k v).run s).1 = (t.create k v).1 ∧
      Edits s ((createEnv k v).run s).2 t (t.create k v).2 := by
  by_cases hname : k.IsName
  · have hrun : (createEnv k v).run s =
        if (findEnv s k).isSome then (.envNameExist, s) else (writeEnv k v).run s := by
      simp only [createEnv, if_neg hname.1, if_neg hname.2, Prog.run_bind, Prog.run_read,
        Prog.run_ite, Prog.run_pure]
    rw [hrun]
    cases hget : t.get k with
    | none =>
      rw [(findEnv_eq h hname).1 hget, if_neg (by simp)]
      exact edits_writeEnv h hname hget
    | some w =>
      obtain ⟨pre, post, hsplit, hpre⟩ := Dict.split_of_get hget
      rw [(findEnv_eq h hname).2 w pre post hsplit hpre, if_pos (by simp),
        EnvTable.create_exist hname (by rw [hget]; simp)]
      exact ⟨rfl, Edits.refl h⟩
  · have hrun : (createEnv k v).run s = (.envNameErr, s) := by
      rcases Classical.em (k.bytes = []) with hempty | hne
      · simp only [createEnv, if_pos hempty, Prog.run_pure]
      · have heq : '='.toUInt8 ∈ k.bytes := Classical.not_not.mp fun hno => hname ⟨hne, hno⟩
        simp only [createEnv, if_neg hne, if_pos heq, Prog.run_pure]
    rw [hrun, EnvTable.create_not_name hname]
    exact ⟨rfl, Edits.refl h⟩

namespace EnvLemmas

/-- `del_env` of a variable that is there. -/
theorem edits_delEnv (h : Holds s t) {k v : CStr} (hname : k.IsName) (hget : t.get k = some v) :
    ((delEnv k).run s).1 = .noErr ∧ Edits s ((delEnv k).run s).2 t (t.erase k) := by
  obtain ⟨pre, post, hsplit, hpre⟩ := Dict.split_of_get hget
  have hfind := (findEnv_eq h hname).2 v pre post hsplit hpre
  have hencode : t.encode = encodeEnv pre ++ (envEntry (k, v) ++ encodeEnv post) := by
    rw [EnvTable.encode, hsplit, encodeEnv_append, encodeEnv_cons]
  have hencode' : (t.erase k).encode = encodeEnv pre ++ encodeEnv post := by
    show encodeEnv (t.vars.erase k).entries = _
    rw [Dict.entries_erase hsplit hpre, encodeEnv_append]
  have hlen := congrArg List.length hencode
  have hlen' := congrArg List.length hencode'
  simp only [List.length_append] at hlen hlen'
  have hsize := size_eq t
  have hsize' := size_eq (t.erase k)
  have hlt := size_lt t
  have hmax : envUserSettingSize = 2048 := rfl
  have hdel : wordAlign ((cString (s.envCache.drop
      (envParamByteSize + (encodeEnv pre).length))).length + 1) = (envEntry (k, v)).length := by
    rw [drop_entry h hsplit, cString_envEntry, length_envEntry]
  have hremain : sub32 t.encode.length (sub32 (envParamByteSize + (encodeEnv pre).length +
      (envEntry (k, v)).length) envParamByteSize) = (encodeEnv post).length := by
    have hinner : sub32 (envParamByteSize + (encodeEnv pre).length + (envEntry (k, v)).length)
        envParamByteSize = (encodeEnv pre).length + (envEntry (k, v)).length := by
      rw [sub32_of_le (by omega) (by omega)]
      omega
    rw [hinner, sub32_of_le (by omega) (by omega)]
    omega
  have harea := h.area
  have hareas : envAreaSize = 8192 := rfl
  have hend : sub32 (ofLe32 ((patch s.envCache (envParamByteSize + (encodeEnv pre).length)
      ((s.envCache.drop (envParamByteSize + (encodeEnv pre).length +
        (envEntry (k, v)).length)).take (encodeEnv post).length)).drop (4 * 0)))
      (envEntry (k, v)).length = s.curLoadAreaAddr + (t.erase k).size := by
    have hword : ofLe32 (s.envCache.drop (4 * 0)) = s.curLoadAreaAddr + t.size := h.endAddr
    rw [ofLe32_drop_patch_of_le _ (by
      have h12 : envParamByteSize = 12 := rfl
      omega), hword, sub32_of_le (by omega) (by omega)]
    omega
  have hrun : (delEnv k).run s = (.noErr, { s with
      envCache := patch (patch s.envCache (envParamByteSize + (encodeEnv pre).length)
        ((s.envCache.drop (envParamByteSize + (encodeEnv pre).length +
          (envEntry (k, v)).length)).take (encodeEnv post).length)) 0
        (le32 (s.curLoadAreaAddr + (t.erase k).size))
      envCacheChanged := true }) := by
    simp only [delEnv, if_neg hname.1, if_neg hname.2, Prog.run_bind, Prog.run_read, hfind,
      Prog.run_modify, Prog.run_pure, id, hdel, dataSize_eq h, hremain, setEnvEndAddr,
      getEnvEndAddr, Ef.setWord, Ef.word, envParamIndexEndAddr, hend, Nat.mul_zero]
  rw [hrun]
  refine ⟨rfl, edits_of_data h (Nat.le_add_right _ _) ?_⟩
  have hdata := h.data
  rw [hencode] at hdata
  rw [hencode']
  refine data_del ?_ hdata
  rw [h.length, ← hencode, ← hsize]
  omega

end EnvLemmas

/-- `del_env` deletes the variable in the table. -/
theorem run_delEnv (h : Holds s t) (k : CStr) :
    ((delEnv k).run s).1 = (t.del k).1 ∧ Edits s ((delEnv k).run s).2 t (t.del k).2 := by
  by_cases hname : k.IsName
  · cases hget : t.get k with
    | none =>
      have hrun : (delEnv k).run s = (.envNameErr, s) := by
        simp only [delEnv, if_neg hname.1, if_neg hname.2, Prog.run_bind, Prog.run_read,
          (findEnv_eq h hname).1 hget, Prog.run_pure]
      rw [hrun, EnvTable.del, if_neg fun hd => hd.2 hget]
      exact ⟨rfl, Edits.refl h⟩
    | some v =>
      rw [EnvTable.del, if_pos ⟨hname, by rw [hget]; simp⟩]
      exact edits_delEnv h hname hget
  · have hrun : (delEnv k).run s = (.envNameErr, s) := by
      rcases Classical.em (k.bytes = []) with hempty | hne
      · simp only [delEnv, if_pos hempty, Prog.run_pure]
      · have heq : '='.toUInt8 ∈ k.bytes := Classical.not_not.mp fun hno => hname ⟨hne, hno⟩
        simp only [delEnv, if_neg hne, if_pos heq, Prog.run_pure]
    rw [hrun, EnvTable.del, if_neg fun hd => hname hd.1]
    exact ⟨rfl, Edits.refl h⟩

/-- `ef_set_env` sets the variable in the table. A name that no variable can have leaves
the table as it is. -/
theorem run_efSetEnv (h : Holds s t) (hinit : s.initOk = true) (k v : CStr) :
    (k.IsName → ((efSetEnv k (some v)).run s).1 = (t.set k v).1) ∧
      Edits s ((efSetEnv k (some v)).run s).2 t (t.set k v).2 := by
  have hinit' : ¬ s.initOk = false := by rw [hinit]; decide
  by_cases hname : k.IsName
  · cases hget : t.get k with
    | none =>
      have hrun : (efSetEnv k (some v)).run s = (createEnv k v).run s := by
        simp only [efSetEnv, Prog.run_bind, Prog.run_read, if_neg hinit', id,
          (findEnv_eq h hname).1 hget]
      have herase : t.erase k = t := EnvTable.ext_entries (Dict.erase_of_get_none hget)
      have hcreate := run_createEnv h k v
      rw [hrun, EnvTable.set, if_pos hname, if_neg (by rw [hget]; simp), herase]
      exact ⟨fun _ => hcreate.1, hcreate.2⟩
    | some w =>
      obtain ⟨pre, post, hsplit, hpre⟩ := Dict.split_of_get hget
      have hfind := (findEnv_eq h hname).2 w pre post hsplit hpre
      have hvalue := cString_envValue h hname hsplit
      -- a value that is already there is not written
      rcases Classical.em (w = v) with rfl | hne
      · have hrun : (efSetEnv k (some w)).run s = (.noErr, s) := by
          simp only [efSetEnv, Prog.run_bind, Prog.run_read, if_neg hinit', id, hfind, hvalue,
            ne_eq, not_true_eq_false, if_false, Prog.run_pure]
        rw [hrun, EnvTable.set, if_pos hname, if_pos hget]
        exact ⟨fun _ => rfl, Edits.refl h⟩
      · obtain ⟨hdel, hedits⟩ := edits_delEnv h hname hget
        have hbytes : w.bytes ≠ v.bytes := fun he => hne (CStr.ext_bytes he)
        have hrun : (efSetEnv k (some v)).run s = (createEnv k v).run ((delEnv k).run s).2 := by
          simp only [efSetEnv, Prog.run_bind, Prog.run_read, if_neg hinit', id, hfind, hvalue,
            if_pos hbytes, hdel, if_true]
        have hcreate := run_createEnv hedits.holds k v
        rw [hrun, EnvTable.set, if_pos hname, if_neg (by rw [hget]; simpa using hne)]
        exact ⟨fun _ => hcreate.1, hedits.trans hcreate.2⟩
  · rw [EnvTable.set, if_neg hname]
    refine ⟨fun hk => absurd hk hname, ?_⟩
    have hdel := run_delEnv h k
    have hcreate := run_createEnv h k v
    rw [EnvTable.del, if_neg fun hd => hname hd.1] at hdel
    rw [EnvTable.create_not_name hname] at hcreate
    have hdelErr : ¬ ((delEnv k).run s).1 = .noErr := fun hr => by rw [hdel.1] at hr; cases hr
    cases hfind : findEnv s k with
    | none =>
      have hrun : (efSetEnv k (some v)).run s = (createEnv k v).run s := by
        simp only [efSetEnv, Prog.run_bind, Prog.run_read, if_neg hinit', id, hfind]
      rw [hrun]
      exact hcreate.2
    | some env =>
      by_cases hval : cString (s.envCache.drop (envValue s.envCache env)) ≠ v.bytes
      · have hrun : ((efSetEnv k (some v)).run s).2 = ((delEnv k).run s).2 := by
          simp only [efSetEnv, Prog.run_bind, Prog.run_read, if_neg hinit', id, hfind, if_pos hval,
            if_neg hdelErr, Prog.run_pure]
        rw [hrun]
        exact hdel.2
      · have hrun : ((efSetEnv k (some v)).run s).2 = s := by
          simp only [efSetEnv, Prog.run_bind, Prog.run_read, if_neg hinit', id, hfind, if_neg hval,
            Prog.run_pure]
        rw [hrun]
        exact Edits.refl h

/-- `ef_del_env`, and `ef_set_env` with NULL, delete the variable in the table. -/
theorem run_efDelEnv (h : Holds s t) (hinit : s.initOk = true) (k : CStr) :
    (efDelEnv k).run s = (efSetEnv k none).run s ∧
      ((efDelEnv k).run s).1 = (t.del k).1 ∧ Edits s ((efDelEnv k).run s).2 t (t.del k).2 := by
  have hinit' : ¬ s.initOk = false := by rw [hinit]; decide
  have hset : (efSetEnv k none).run s = (delEnv k).run s := by
    simp only [efSetEnv, Prog.run_bind, Prog.run_read, if_neg hinit']
  have hdel : (efDelEnv k).run s = (delEnv k).run s := by
    simp only [efDelEnv, Prog.run_bind, Prog.run_read, if_neg hinit']
  rw [hset, hdel]
  exact ⟨rfl, run_delEnv h k⟩

/-- After `ef_set_env` the variable has its new value. When the block is full, it has none:
the old value is gone. The other variables are as they were. -/
theorem efSetEnv_then_get (s : Ef) (t : EnvTable) (h : Holds s t) (hinit : s.initOk = true)
    (k v : CStr) (hk : k.IsName) :
    (((efSetEnv k (some v)).run s).1 = .noErr ∧
        envString ((efSetEnv k (some v)).run s).2 k = some v.bytes ∨
      ((efSetEnv k (some v)).run s).1 = .envFull ∧
        envString ((efSetEnv k (some v)).run s).2 k = none) ∧
      ∀ k' : CStr, k'.IsName → k' ≠ k →
        envString ((efSetEnv k (some v)).run s).2 k' = envString s k' := by
  obtain ⟨hrc, hedits⟩ := run_efSetEnv h hinit k v
  have hinit' := hedits.initOk.trans hinit
  rw [hrc hk, envString_eq hedits.holds hinit' hk]
  constructor
  · have hget := EnvTable.get_set_self t v hk
    rcases EnvTable.set_result t v hk with hok | hfull
    · rw [if_pos hok] at hget
      exact .inl ⟨hok, by rw [hget]; rfl⟩
    · rw [if_neg (by rw [hfull]; decide)] at hget
      exact .inr ⟨hfull, by rw [hget]; rfl⟩
  · intro k' hk' hne
    rw [envString_eq hedits.holds hinit' hk', envString_eq h hinit hk',
      EnvTable.get_set_ne t v hne]

end

/-! ### An example -/

/-- No variables, after the initialisation. -/
def emptyEf : Ef where
  envCache := le32 envParamByteSize ++ List.replicate (envUserSettingSize - 4) 0
  envCacheChanged := false
  initOk := true
  curLoadAreaAddr := 0
  nextSaveAreaAddr := envAreaSize / 2
  chip := ⟨fun _ => 0xFF, 0⟩

theorem EnvLemmas.holds_emptyEf : Holds emptyEf EnvTable.empty where
  length := by
    rw [emptyEf, List.length_append, length_le32, List.length_replicate]
    rfl
  area := by decide
  endAddr := ofLe32_le32_append _ _
  data := rfl

def greetKey : CStr := ⟨ascii "hello", ne_zero_of_all (by decide)⟩

def greetValue : CStr := ⟨ascii "world", ne_zero_of_all (by decide)⟩

/-- `boot_times` is 0, and there is a greeting. -/
def greetingTable : EnvTable :=
  ((EnvTable.empty.set bootTimes zeroText).2.set greetKey greetValue).2

/-- The state with these variables, and what is found in it. -/
theorem EnvLemmas.exists_greeting : ∃ s : Ef, Holds s greetingTable ∧ s.initOk = true ∧
    envString s bootTimes = some zeroText.bytes ∧ envString s greetKey = some greetValue.bytes := by
  have hboot := (run_efSetEnv holds_emptyEf rfl bootTimes zeroText).2
  have hgreet := (run_efSetEnv hboot.holds hboot.initOk greetKey greetValue).2
  have hinit := hgreet.initOk.trans hboot.initOk
  have hget : greetingTable.get bootTimes = some zeroText ∧
      greetingTable.get greetKey = some greetValue := by decide +kernel
  refine ⟨_, hgreet.holds, hinit, ?_, ?_⟩
  · exact (envString_eq hgreet.holds hinit (by decide)).trans (congrArg (Option.map CStr.bytes) hget.1)
  · exact (envString_eq hgreet.holds hinit (by decide)).trans (congrArg (Option.map CStr.bytes) hget.2)

/-- `boot_times` gets another value. -/
theorem efSetEnv_then_get_boot_times :
    ∃ s : Ef, envString s bootTimes = some zeroText.bytes ∧
      envString s greetKey = some greetValue.bytes ∧
      (((efSetEnv bootTimes (some greetValue)).run s).1 = .noErr ∧
          envString ((efSetEnv bootTimes (some greetValue)).run s).2 bootTimes =
            some greetValue.bytes ∨
        ((efSetEnv bootTimes (some greetValue)).run s).1 = .envFull ∧
          envString ((efSetEnv bootTimes (some greetValue)).run s).2 bootTimes = none) ∧
      ∀ k' : CStr, k'.IsName → k' ≠ bootTimes →
        envString ((efSetEnv bootTimes (some greetValue)).run s).2 k' = envString s k' := by
  obtain ⟨s, hholds, hinit, hboot, hgreet⟩ := exists_greeting
  exact ⟨s, hboot, hgreet, efSetEnv_then_get s greetingTable hholds hinit _ _ (by decide)⟩

/-! ## Runs -/

inductive EnvOp
  | create (key value : CStr)
  | set (key value : CStr)
  | del (key : CStr)

def EnvOp.key : EnvOp → CStr
  | .create key _ => key
  | .set key _ => key
  | .del key => key

def EnvOp.perform : EnvOp → Prog Ef EfErrCode
  | .create key value => createEnv key value
  | .set key value => efSetEnv key (some value)
  | .del key => efDelEnv key

def EnvTable.perform (t : EnvTable) : EnvOp → EfErrCode × EnvTable
  | .create key value => t.create key value
  | .set key value => t.set key value
  | .del key => t.del key

/-- The results of the operations, one after the other. -/
def performOps : List EnvOp → Prog Ef (List EfErrCode)
  | [] => return []
  | op :: ops => do
    let rc ← op.perform
    let rcs ← performOps ops
    return rc :: rcs

def EnvTable.performOps (t : EnvTable) : List EnvOp → List EfErrCode × EnvTable
  | [] => ([], t)
  | op :: ops =>
    let r := (t.perform op).2.performOps ops
    ((t.perform op).1 :: r.1, r.2)

theorem run_perform {s : Ef} {t : EnvTable} (h : Holds s t) (hinit : s.initOk = true) (op : EnvOp) :
    (op.key.IsName → (op.perform.run s).1 = (t.perform op).1) ∧
      Edits s (op.perform.run s).2 t (t.perform op).2 := by
  cases op with
  | create key value =>
    obtain ⟨hrc, hedits⟩ := run_createEnv h key value
    exact ⟨fun _ => hrc, hedits⟩
  | set key value => exact run_efSetEnv h hinit key value
  | del key =>
    obtain ⟨_, hrc, hedits⟩ := run_efDelEnv h hinit key
    exact ⟨fun _ => hrc, hedits⟩

theorem edits_performOps (ops : List EnvOp) {s : Ef} {t : EnvTable} (h : Holds s t)
    (hinit : s.initOk = true) : Edits s ((performOps ops).run s).2 t (t.performOps ops).2 := by
  induction ops generalizing s t with
  | nil => exact Edits.refl h
  | cons op ops ih =>
    obtain ⟨_, hedits⟩ := run_perform h hinit op
    exact hedits.trans (ih hedits.holds (hedits.initOk.trans hinit))

/-- A run of changes in memory is the run on the table: the results are the same, for
every operation whose name a variable can have, and afterwards every variable is found
with the value it has in the table. -/
theorem env_refines_table (s : Ef) (t : EnvTable) (ops : List EnvOp) (h : Holds s t)
    (hinit : s.initOk = true) :
    (∀ (i : Nat) (op : EnvOp), ops[i]? = some op → op.key.IsName →
        ((performOps ops).run s).1[i]? = (t.performOps ops).1[i]?) ∧
      ∀ k : CStr, k.IsName →
        envString ((performOps ops).run s).2 k = ((t.performOps ops).2.get k).map CStr.bytes := by
  constructor
  · induction ops generalizing s t with
    | nil => exact fun _ _ hop => absurd hop (by simp)
    | cons op ops ih =>
      obtain ⟨hrc, hedits⟩ := run_perform h hinit op
      intro i op' hop hname
      cases i with
      | zero =>
        obtain rfl := Option.some.inj hop
        exact congrArg some (hrc hname)
      | succ i => exact ih _ _ hedits.holds (hedits.initOk.trans hinit) i op' hop hname
  · have hedits := edits_performOps ops h hinit
    exact fun k hk => envString_eq hedits.holds (hedits.initOk.trans hinit) hk

/-- The greeting is created once more, which fails; `boot_times` is set and deleted. -/
theorem env_refines_table_boot_times :
    ∃ s : Ef,
      (∀ (i : Nat) (op : EnvOp),
        [EnvOp.create greetKey zeroText, .set bootTimes greetValue, .del bootTimes][i]? = some op →
        op.key.IsName →
        ((performOps [.create greetKey zeroText, .set bootTimes greetValue, .del bootTimes]).run
            s).1[i]? =
          (greetingTable.performOps
            [.create greetKey zeroText, .set bootTimes greetValue, .del bootTimes]).1[i]?) ∧
      ∀ k : CStr, k.IsName →
        envString ((performOps
            [.create greetKey zeroText, .set bootTimes greetValue, .del bootTimes]).run s).2 k =
          ((greetingTable.performOps
            [.create greetKey zeroText, .set bootTimes greetValue, .del bootTimes]).2.get k).map
              CStr.bytes := by
  obtain ⟨s, hholds, hinit, _⟩ := exists_greeting
  exact ⟨s, env_refines_table s greetingTable _ hholds hinit⟩

end EspushW60x
