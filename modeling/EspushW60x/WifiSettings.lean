import EspushW60x.EnvFaults
import EspushW60x.WifiConfig

/-!
# The Wi-Fi settings, written and read

`EnvTable.writeCfg`, `EnvTable.getLen` and `EnvTable.readCfg` are the settings in a table
of variables; the functions of `wifi_config.c` do the same on the environment variables.

Results:
* `write_cfg_then_read_cfg`: settings are read as they were written, or not at all;
* `empty_settings_store_before_buffer`: no settings are read to the byte before the buffer;
* `settings_survive_power_cut`: a power cut leaves the old settings or the new ones.
-/

namespace EspushW60x

open Lib EnvLemmas AreaLemmas PowerLemmas WifiLemmas

/-! ## Settings in a table -/

def EnvTable.getLen (t : EnvTable) : Int :=
  match t.get wlanCfgLen with
  | none => 0
  | some value => atoi value.bytes

def EnvTable.readCfg (t : EnvTable) (mem : Bytes) (buff len : Nat) : Int × Bytes :=
  match t.get wlanCfgInfo with
  | none => (0, mem)
  | some info =>
    (len, (strBase64Decode (envText (wlanCfgInfo, info)) (wlanCfgInfo.bytes.length + 1)
      info.bytes.length mem buff).2)

/-- The calls that store settings. -/
def writeCfgCalls (bs : Bytes) : List EnvCall :=
  [.set wlanCfgLen (CStr.ofNat bs.length), .set wlanCfgInfo (CStr.ofBytes (Base64.encode bs)), .save]

def EnvTable.writeCfg (t : EnvTable) (bs : Bytes) : EnvTable :=
  ((t.set wlanCfgLen (CStr.ofNat bs.length)).2.set wlanCfgInfo (CStr.ofBytes (Base64.encode bs))).2

/-- There is room for settings of `len` bytes. -/
def EnvTable.HasRoom (t : EnvTable) (len : Nat) : Prop :=
  t.size + ((len + 2) / 3 * 4 + 36) < envUserSettingSize

namespace WifiLemmas

/-! ## Reading -/

section

variable {data data' : Bytes} {i i' start start' : Nat}

theorem sextet_congr (h : byteAt data i = byteAt data' i') : sextet data i = sextet data' i' := by
  rw [sextet, sextet, h]

theorem strBase64DecodeFrom_congr {n : Nat} (h : ∀ k < 4 * n, byteAt data (i + k) = byteAt data' (i' + k))
    (decoded : Nat) (outLen : Int) (s : Nat × Bytes) :
    strBase64DecodeFrom data decoded outLen n i s = strBase64DecodeFrom data' decoded outLen n i' s := by
  induction n generalizing i i' s with
  | zero => rfl
  | succ n ih =>
    have hgroup (k : Nat) (hk : k < 4) : sextet data (i + k) = sextet data' (i' + k) :=
      sextet_congr (h k (by omega))
    have hrest (k : Nat) (hk : k < 4 * n) : byteAt data (i + 4 + k) = byteAt data' (i' + 4 + k) := by
      rw [Nat.add_assoc, Nat.add_assoc]
      exact h (4 + k) (by omega)
    have h0 : sextet data i = sextet data' i' := hgroup 0 (by omega)
    rw [strBase64DecodeFrom, strBase64DecodeFrom, h0, hgroup 1 (by omega), hgroup 2 (by omega),
      hgroup 3 (by omega), ih hrest]

/-- Decoding depends on the text and on the two bytes before it. -/
theorem strBase64Decode_congr {len : Nat} (hstart : 2 ≤ start) (hstart' : 2 ≤ start')
    (h : ∀ k < len + 2, byteAt data (start - 2 + k) = byteAt data' (start' - 2 + k)) (buf : Bytes)
    (decoded : Nat) :
    strBase64Decode data start len buf decoded = strBase64Decode data' start' len buf decoded := by
  have hlast : byteAt data (start + len - 1) = byteAt data' (start' + len - 1) := by
    have hk := h (len + 1) (by omega)
    rwa [show start - 2 + (len + 1) = start + len - 1 by omega,
      show start' - 2 + (len + 1) = start' + len - 1 by omega] at hk
  have hsecond : byteAt data (start + len - 2) = byteAt data' (start' + len - 2) := by
    have hk := h len (by omega)
    rwa [show start - 2 + len = start + len - 2 by omega,
      show start' - 2 + len = start' + len - 2 by omega] at hk
  have hlen : decodedLen data start len = decodedLen data' start' len := by
    simp only [decodedLen, hlast, hsecond]
  have htext (k : Nat) (hk : k < 4 * (len / 4)) : byteAt data (start + k) = byteAt data' (start' + k) := by
    have hk' := h (k + 2) (by omega)
    rwa [show start - 2 + (k + 2) = start + k by omega,
      show start' - 2 + (k + 2) = start' + k by omega] at hk'
  simp only [strBase64Decode, hlen, strBase64DecodeFrom_congr htext]

end

section

variable {s : Ef} {t : EnvTable}

theorem isName_wlanCfg : wlanCfgLen.IsName ∧ wlanCfgInfo.IsName ∧ wlanCfgLen ≠ wlanCfgInfo := by decide

/-- Where `ef_get_env` points to. -/
theorem efGetEnv_eq (h : Holds s t) (hinit : s.initOk = true) {k : CStr} (hk : k.IsName) :
    (t.get k = none → efGetEnv s k = none) ∧
      ∀ v, t.get k = some v → ∃ env rest, s.envCache.drop env = envText (k, v) ++ 0 :: rest ∧
        efGetEnv s k = some (env + k.bytes.length + 1) := by
  rw [efGetEnv, if_neg (by rw [hinit]; decide)]
  constructor
  · intro hget
    rw [(findEnv_eq h hk).1 hget]
    rfl
  · intro v hget
    obtain ⟨pre, post, hsplit, hpre⟩ := Dict.split_of_get hget
    have hdrop := drop_entry h hsplit
    obtain ⟨pad, hpad⟩ := envEntry_eq (k, v)
    have hidx : (envText (k, v)).idxOf '='.toUInt8 = k.bytes.length := idxOf_eq_envText hk
    refine ⟨_, _, by rw [hdrop, hpad, List.append_assoc]; rfl, ?_⟩
    rw [(findEnv_eq h hk).2 v pre post hsplit hpre, Option.map_some, envValue, hdrop,
      cString_envEntry, hidx]

theorem getLen_eq (h : Holds s t) (hinit : s.initOk = true) : getLen s = t.getLen := by
  have hstring := envString_eq h hinit isName_wlanCfg.1
  rw [envString] at hstring
  rw [getLen, EnvTable.getLen]
  cases hget : t.get wlanCfgLen with
  | none =>
    rw [(efGetEnv_eq h hinit isName_wlanCfg.1).1 hget]
  | some v =>
    obtain ⟨env, rest, _, hp⟩ := (efGetEnv_eq h hinit isName_wlanCfg.1).2 v hget
    rw [hp, hget] at hstring
    rw [hp]
    exact congrArg atoi (Option.some.inj hstring)

theorem readCfg_eq (h : Holds s t) (hinit : s.initOk = true) (mem : Bytes) (buff len : Nat) :
    readCfg s mem buff len = t.readCfg mem buff len := by
  obtain ⟨hnone, hsome⟩ := efGetEnv_eq h hinit isName_wlanCfg.2.1
  have hstring := envString_eq h hinit isName_wlanCfg.2.1
  rw [envString] at hstring
  rw [readCfg, EnvTable.readCfg]
  cases hget : t.get wlanCfgInfo with
  | none => rw [hnone hget]
  | some v =>
    obtain ⟨env, rest, hdrop, hp⟩ := hsome v hget
    rw [hp, hget] at hstring
    have htext : cString (s.envCache.drop (env + wlanCfgInfo.bytes.length + 1)) = v.bytes :=
      Option.some.inj hstring
    have hkey : wlanCfgInfo.bytes.length = 13 := rfl
    have hlen := length_envText wlanCfgInfo v
    have hbytes (k : Nat) (hk : k < v.bytes.length + 2) :
        byteAt s.envCache (env + wlanCfgInfo.bytes.length + 1 - 2 + k) =
          byteAt (envText (wlanCfgInfo, v)) (wlanCfgInfo.bytes.length + 1 - 2 + k) := by
      rw [show env + wlanCfgInfo.bytes.length + 1 - 2 + k =
        env + (wlanCfgInfo.bytes.length + 1 - 2 + k) by omega, byteAt_of_drop hdrop,
        byteAt_append_of_lt _ (by omega)]
    rw [hp]
    simp only [htext]
    rw [strBase64Decode_congr (by omega) (by omega) hbytes]

end

/-! ## Writing -/

section

variable {e : FlashEnv} {heap : Heap} {buff : Bytes} {len : Nat}
  {block : { block : Bytes // block.length = len * 4 / 3 + 4 }}

theorem atoi_text (n : Nat) : atoi (Decimal.text n) = n := by
  have hread := Decimal.read_text n
  obtain ⟨c, rest, hcons⟩ := List.exists_cons_of_ne_nil (Decimal.text_ne_nil n)
  have hdigit : Decimal.IsDigit c := Decimal.isDigit_text n c (by rw [hcons]; exact List.mem_cons_self)
  have hall : ∀ c : UInt8, Decimal.IsDigit c →
      isSpace c = false ∧ c ≠ '-'.toUInt8 ∧ c ≠ '+'.toUInt8 :=
    Hex.forall_uint8 (by decide +kernel)
  obtain ⟨hspace, hminus, hplus⟩ := hall c hdigit
  rw [hcons] at hread ⊢
  rw [atoi, List.dropWhile_cons_of_neg (by rw [hspace]; decide)]
  simp only [if_neg hminus, if_neg hplus, hread]

theorem ofBytes_encode (bs : Bytes) : (CStr.ofBytes (Base64.encode bs)).bytes = Base64.encode bs := by
  have htake : (Base64.encode bs ++ []).takeWhile (fun b => decide (b ≠ 0)) = _ :=
    List.takeWhile_append_of_pos fun b hb => decide_eq_true (Base64.encode_ne_zero bs b hb)
  rw [List.append_nil, List.takeWhile_nil, List.append_nil] at htake
  exact htake

/-- `write_cfg` is its calls, whatever they return. -/
theorem run_writeCfg (part : FalPartition) (hblock : heap (len * 4 / 3 + 4) = some block)
    (hlen : len ≤ buff.length) (s : Ef) :
    (writeCfg e part heap buff len).run s =
      (performCalls e part (writeCfgCalls (buff.take len)) >>= fun _ =>
        (pure (len : Int) : Powered Ef Int)).run s := by
  have htake : (buff.take len).length = len := by rw [List.length_take, Nat.min_eq_left hlen]
  have hroom : (len + 2) / 3 * 4 + 1 ≤ (patch block.1 0 (List.replicate len 0)).length := by
    rw [length_patch, block.2]
    omega
  have hencoded : CStr.ofBytes (strBase64EncodeLen buff (patch block.1 0 (List.replicate len 0)) len) =
      CStr.ofBytes (Base64.encode (buff.take len)) := by
    refine CStr.ext_bytes ?_
    rw [ofBytes_encode]
    exact cString_encoded hlen hroom
  rw [writeCfg, hblock]
  dsimp only
  rw [hencoded, writeCfgCalls, htake]
  simp only [performCalls, EnvCall.perform, Powered.run_bind, Powered.run_liftProg]
  generalize (efSaveEnv e part).run _ = r
  obtain ⟨_ | _, _⟩ := r <;> rfl

theorem getLen_writeCfg (t : EnvTable) (bs : Bytes) :
    (t.writeCfg bs).getLen =
      if (t.set wlanCfgLen (CStr.ofNat bs.length)).1 = .noErr then (bs.length : Int) else 0 := by
  obtain ⟨hname, _, hne⟩ := isName_wlanCfg
  rw [EnvTable.getLen, EnvTable.writeCfg, EnvTable.get_set_ne _ _ hne, EnvTable.get_set_self _ _ hname]
  by_cases hok : (t.set wlanCfgLen (CStr.ofNat bs.length)).1 = .noErr
  · rw [if_pos hok, if_pos hok]
    exact atoi_text bs.length
  · rw [if_neg hok, if_neg hok]

theorem get_writeCfg_info (t : EnvTable) (bs : Bytes) :
    (t.writeCfg bs).get wlanCfgInfo = some (CStr.ofBytes (Base64.encode bs)) ∨
      (t.writeCfg bs).get wlanCfgInfo = none := by
  rw [EnvTable.writeCfg, EnvTable.get_set_self _ _ isName_wlanCfg.2.1]
  split
  · exact .inl rfl
  · exact .inr rfl

/-- What is read when the settings are there. -/
theorem readCfg_of_get {t : EnvTable} {bs mem : Bytes} {buff : Nat} (len : Nat)
    (hget : t.get wlanCfgInfo = some (CStr.ofBytes (Base64.encode bs))) (hne : bs ≠ [])
    (hfit : buff + bs.length + 1 ≤ mem.length) :
    t.readCfg mem buff len = ((len : Int), patch mem buff (bs ++ [0])) := by
  have htext : (envText (wlanCfgInfo, CStr.ofBytes (Base64.encode bs))).drop
      (wlanCfgInfo.bytes.length + 1) = Base64.encode bs ++ [] := by
    rw [List.append_nil, envText, ← List.drop_drop, List.drop_left' rfl]
    exact ofBytes_encode bs
  rw [EnvTable.readCfg, hget]
  dsimp only
  rw [ofBytes_encode, strBase64Decode_eq hne htext hfit]

/-- No settings: the length of the text is 0, and `out_len` is -1, because of the equal
sign before the text. -/
theorem readCfg_of_get_nil {t : EnvTable} {mem : Bytes} {buff : Nat} (len : Nat)
    (hget : t.get wlanCfgInfo = some (CStr.ofBytes (Base64.encode []))) :
    t.readCfg mem (buff + 1) len = ((len : Int), patch mem buff [0]) := by
  have htext : envText (wlanCfgInfo, CStr.ofBytes (Base64.encode [])) = ascii "wlan_cfg_info=" := by
    decide
  have hlen : decodedLen (ascii "wlan_cfg_info=") 14 0 = -1 := by decide
  have hend : (((buff + 1 : Nat) : Int) + -1).toNat = buff := by omega
  have hempty : Base64.encode [] = [] := by rw [Base64.encode]
  rw [EnvTable.readCfg, hget]
  dsimp only
  rw [ofBytes_encode, htext, hempty]
  show ((len : Int), (strBase64Decode (ascii "wlan_cfg_info=") 14 0 mem (buff + 1)).2) = _
  rw [strBase64Decode, if_neg (by decide)]
  simp only [hlen, hend, Nat.zero_div, strBase64DecodeFrom]

/-- With room for them, both variables are set, and take the room. -/
theorem writeCfg_of_room {t : EnvTable} {bs : Bytes} (hroom : t.HasRoom bs.length) :
    (t.set wlanCfgLen (CStr.ofNat bs.length)).1 = .noErr ∧
      ((t.set wlanCfgLen (CStr.ofNat bs.length)).2.set wlanCfgInfo
        (CStr.ofBytes (Base64.encode bs))).1 = .noErr ∧
      (t.writeCfg bs).size ≤ t.size + ((bs.length + 2) / 3 * 4 + 36) := by
  obtain ⟨hlenName, hinfoName, _⟩ := isName_wlanCfg
  have hmax : envUserSettingSize = 2048 := rfl
  have hencode := Base64.length_encode bs
  unfold EnvTable.HasRoom at hroom
  have hdigits : (Decimal.text bs.length).length ≤ (Decimal.text 9999).length :=
    Decimal.length_text_mono (by omega)
  have hfour : (Decimal.text 9999).length = 4 := by simp [Decimal.text]
  have hlenEntry : (envEntry (wlanCfgLen, CStr.ofNat bs.length)).length ≤ 20 := by
    have htext := length_envText wlanCfgLen (CStr.ofNat bs.length)
    have hkey : wlanCfgLen.bytes.length = 12 := rfl
    have hvalue : (CStr.ofNat bs.length).bytes.length ≤ 4 := Nat.le_trans hdigits (Nat.le_of_eq hfour)
    rw [length_envEntry, htext, wordAlign]
    split <;> omega
  have hinfoEntry : (envEntry (wlanCfgInfo, CStr.ofBytes (Base64.encode bs))).length =
      (bs.length + 2) / 3 * 4 + 16 := by
    have htext := length_envText wlanCfgInfo (CStr.ofBytes (Base64.encode bs))
    have hkey : wlanCfgInfo.bytes.length = 13 := rfl
    rw [ofBytes_encode, hencode] at htext
    rw [length_envEntry, htext, wordAlign]
    split <;> omega
  obtain ⟨hlenOk, hsize⟩ := EnvTable.set_of_room (t := t) (CStr.ofNat bs.length) hlenName (by omega)
  obtain ⟨hinfoOk, hsize'⟩ := EnvTable.set_of_room (CStr.ofBytes (Base64.encode bs)) hinfoName
    (t := (t.set wlanCfgLen (CStr.ofNat bs.length)).2) (by omega)
  refine ⟨hlenOk, hinfoOk, ?_⟩
  unfold EnvTable.writeCfg
  omega

/-- With room for them, the settings are there. -/
theorem get_writeCfg_of_room {t : EnvTable} {bs : Bytes} (hroom : t.HasRoom bs.length) :
    (t.writeCfg bs).getLen = bs.length ∧
      (t.writeCfg bs).get wlanCfgInfo = some (CStr.ofBytes (Base64.encode bs)) := by
  obtain ⟨hlenOk, hinfoOk, _⟩ := writeCfg_of_room hroom
  refine ⟨?_, ?_⟩
  · rw [getLen_writeCfg, if_pos hlenOk]
  · rw [EnvTable.writeCfg, EnvTable.get_set_self _ _ isName_wlanCfg.2.1, if_pos hinfoOk]

/-- `write_cfg` ends as its calls do. -/
theorem writeCfg_ends (part : FalPartition) (hblock : heap (len * 4 / 3 + 4) = some block)
    (hlen : len ≤ buff.length) (s : Ef) :
    ((writeCfg e part heap buff len).run s).2 =
        ((performCalls e part (writeCfgCalls (buff.take len))).run s).2 ∧
      ∀ rc, ((writeCfg e part heap buff len).run s).1 = some rc →
        ∃ u, ((performCalls e part (writeCfgCalls (buff.take len))).run s).1 = some u := by
  rw [run_writeCfg part hblock hlen, Powered.run_bind]
  generalize (performCalls e part _).run s = r
  obtain ⟨_ | u, _⟩ := r
  · exact ⟨rfl, fun rc hrc => by cases hrc⟩
  · exact ⟨rfl, fun _ _ => ⟨u, rfl⟩⟩

/-- A save leaves the variables in memory as they are. -/
theorem holds_efSaveEnv {p : EnvPartition e} {s : Ef} {t : EnvTable} (h : Holds s t) {side : Bool}
    (hnext : s.nextSaveAreaAddr = areaAddr side) :
    Holds ((efSaveEnv e p.part).run s).2 t ∧ ((efSaveEnv e p.part).run s).2.initOk = s.initOk := by
  cases hchanged : s.envCacheChanged with
  | false =>
    rw [run_efSaveEnv_unchanged e p.part hchanged]
    exact ⟨h, rfl⟩
  | true =>
    have hsave := run_efSaveEnv p h hnext hchanged
    exact ⟨hsave.holds, hsave.initOk⟩

/-- `write_cfg` stores the settings in the table, whether they can be saved or not. -/
theorem holds_writeCfg {p : EnvPartition e} {s : Ef} {t : EnvTable} (h : Holds s t)
    (hinit : s.initOk = true) {side : Bool} (hnext : s.nextSaveAreaAddr = areaAddr side)
    (hblock : heap (len * 4 / 3 + 4) = some block) (hlen : len ≤ buff.length) :
    Holds ((writeCfg e p.part heap buff len).run s).2 (t.writeCfg (buff.take len)) ∧
      ((writeCfg e p.part heap buff len).run s).2.initOk = true ∧
      ∀ rc, ((writeCfg e p.part heap buff len).run s).1 = some rc → rc = len := by
  have hfirst := (run_efSetEnv h hinit wlanCfgLen (CStr.ofNat (buff.take len).length)).2
  have hinit1 := hfirst.initOk.trans hinit
  have hsecond := (run_efSetEnv hfirst.holds hinit1 wlanCfgInfo
    (CStr.ofBytes (Base64.encode (buff.take len)))).2
  have hsave := holds_efSaveEnv (p := p) hsecond.holds (hsecond.next.trans (hfirst.next.trans hnext))
  have hinit2 := hsave.2.trans (hsecond.initOk.trans hinit1)
  rw [run_writeCfg p.part hblock hlen]
  simp only [performCalls, writeCfgCalls, EnvCall.perform, Powered.run_bind, Powered.run_liftProg]
  generalize (efSaveEnv e p.part).run _ = r at hsave hinit2 ⊢
  obtain ⟨_ | rc, s'⟩ := r
  · exact ⟨hsave.1, hinit2, fun rc hrc => by cases hrc⟩
  · exact ⟨hsave.1, hinit2, fun rc hrc => (Option.some.inj hrc).symm⟩

end

end WifiLemmas

section

variable {e : FlashEnv} (p : EnvPartition e) (s : Ef) (t : EnvTable) (side : Bool) (heap : Heap)
  (buff : Bytes) (len : Nat)

/-- `write_cfg` returns `len`, whatever happened; then `read_cfg` stores all of the
settings, and a NUL behind them, or it stores nothing and returns 0. Both are there when
there is room for them. -/
theorem write_cfg_then_read_cfg (h : Holds s t) (hinit : s.initOk = true)
    (hnext : s.nextSaveAreaAddr = areaAddr side) (hpos : 0 < len) (hlen : len ≤ buff.length)
    (hblock : heap (len * 4 / 3 + 4) ≠ none) (rc : Int) (s' : Ef)
    (hrun : (writeCfg e p.part heap buff len).run s = (some rc, s')) :
    rc = len ∧ (getLen s' = len ∨ getLen s' = 0) ∧
      ((∀ (mem : Bytes) (b n : Nat), b + len + 1 ≤ mem.length →
          readCfg s' mem b n = ((n : Int), patch mem b (buff.take len ++ [0]))) ∨
        ∀ (mem : Bytes) (b n : Nat), readCfg s' mem b n = (0, mem)) ∧
      (t.HasRoom len → getLen s' = len ∧
        ∀ (mem : Bytes) (b n : Nat), b + len + 1 ≤ mem.length →
          readCfg s' mem b n = ((n : Int), patch mem b (buff.take len ++ [0]))) := by
  obtain ⟨block, hblock⟩ := Option.ne_none_iff_exists'.mp hblock
  have htake : (buff.take len).length = len := by rw [List.length_take, Nat.min_eq_left hlen]
  have hne : buff.take len ≠ [] := fun hnil => by
    rw [hnil] at htake
    exact absurd htake (Nat.ne_of_lt hpos)
  obtain ⟨hholds, hinit', hrc⟩ := holds_writeCfg (p := p) h hinit hnext hblock hlen
  rw [hrun] at hholds hinit' hrc
  have hread (hget : (t.writeCfg (buff.take len)).get wlanCfgInfo =
      some (CStr.ofBytes (Base64.encode (buff.take len)))) (mem : Bytes) (b n : Nat)
      (hfit : b + len + 1 ≤ mem.length) :
      readCfg s' mem b n = ((n : Int), patch mem b (buff.take len ++ [0])) := by
    rw [readCfg_eq hholds hinit']
    exact readCfg_of_get n hget hne (by rw [htake]; exact hfit)
  refine ⟨hrc rc rfl, ?_, ?_, fun hroom => ?_⟩
  · rw [getLen_eq hholds hinit', getLen_writeCfg, htake]
    split
    · exact .inl rfl
    · exact .inr rfl
  · rcases get_writeCfg_info t (buff.take len) with hget | hget
    · exact .inl (hread hget)
    · refine .inr fun mem b n => ?_
      rw [readCfg_eq hholds hinit', EnvTable.readCfg, hget]
  · rw [← htake] at hroom
    obtain ⟨hgetLen, hget⟩ := get_writeCfg_of_room hroom
    rw [getLen_eq hholds hinit', hgetLen, htake]
    exact ⟨rfl, hread hget⟩

/-- No settings, written and read: a NUL is stored to the byte before the buffer. -/
theorem empty_settings_store_before_buffer (h : Holds s t) (hinit : s.initOk = true)
    (hnext : s.nextSaveAreaAddr = areaAddr side) (hblock : heap 4 ≠ none) (hroom : t.HasRoom 0)
    (rc : Int) (s' : Ef) (hrun : (writeCfg e p.part heap buff 0).run s = (some rc, s')) :
    rc = 0 ∧ getLen s' = 0 ∧
      ∀ (mem : Bytes) (b n : Nat), readCfg s' mem (b + 1) n = ((n : Int), patch mem b [0]) := by
  obtain ⟨block, hblock⟩ := Option.ne_none_iff_exists'.mp hblock
  obtain ⟨hholds, hinit', hrc⟩ := holds_writeCfg (p := p) h hinit hnext hblock (Nat.zero_le _)
  rw [hrun] at hholds hinit' hrc
  have hroom : t.HasRoom ([] : Bytes).length := hroom
  obtain ⟨hgetLen, hget⟩ := get_writeCfg_of_room hroom
  refine ⟨hrc rc rfl, ?_, fun mem b n => ?_⟩
  · rw [getLen_eq hholds hinit']
    exact hgetLen
  · rw [readCfg_eq hholds hinit']
    exact readCfg_of_get_nil n hget

/-- When power is lost while settings are stored for which there is room, the next start
finds the old ones or the new ones, and the new ones if `write_cfg` had returned. -/
theorem settings_survive_power_cut (hfail : ∀ k found, e.fate k ≠ .failed found) (c : Chip) (n : Nat)
    (h : Stored p c.cells n t) (hn : n + 5 < 0xFFFFFFFF) (hpos : 0 < len) (hlen : len ≤ buff.length)
    (hblock : heap (len * 4 / 3 + 4) ≠ none) (hroom : t.HasRoom len) (s0 s1 : Ef)
    (hstart : (efEnvInit e p.part).run (Ef.boot c) = (some .noErr, s0))
    (hnoticed : CallsNoticed p (writeCfgCalls (buff.take len)) s0)
    (hrestart : (efEnvInit e p.part).run
      (Ef.boot ((writeCfg e p.part heap buff len).run s0).2.chip) = (some .noErr, s1)) :
    (((writeCfg e p.part heap buff len).run s0).1 = none ∧ getLen s1 = getLen s0 ∧
        ∀ (mem : Bytes) (b m : Nat), readCfg s1 mem b m = readCfg s0 mem b m) ∨
      getLen s1 = len ∧ ∀ (mem : Bytes) (b m : Nat), b + len + 1 ≤ mem.length →
        readCfg s1 mem b m = ((m : Int), patch mem b (buff.take len ++ [0])) := by
  obtain ⟨block, hblock⟩ := Option.ne_none_iff_exists'.mp hblock
  have htake : (buff.take len).length = len := by rw [List.length_take, Nat.min_eq_left hlen]
  have hne : buff.take len ≠ [] := fun hnil => by
    rw [hnil] at htake
    exact absurd htake (Nat.ne_of_lt hpos)
  obtain ⟨k, hk, hlive⟩ := live_of_started h (by omega) hstart
  have hcalls : (writeCfgCalls (buff.take len)).length = 3 := rfl
  obtain ⟨j, hj, hstored⟩ := run_calls hfail (writeCfgCalls (buff.take len)) hlive (by omega) hnoticed
  obtain ⟨hends, hreturns⟩ := writeCfg_ends (e := e) p.part hblock hlen s0
  rw [hends] at hrestart
  rw [hcalls] at hstored
  obtain hall | hcut : 3 ≤ j ∨ j < 3 := by omega
  · right
    rw [List.take_of_length_le (l := writeCfgCalls _) (by rw [hcalls]; exact hall)] at hstored
    obtain ⟨_, _, hlive'⟩ := live_of_started hstored (by omega) hrestart
    have hholds : Holds s1 (t.writeCfg (buff.take len)) := hlive'.holds
    rw [← htake] at hroom
    obtain ⟨hgetLen, hget⟩ := get_writeCfg_of_room hroom
    rw [getLen_eq hholds hlive'.initOk, hgetLen, htake]
    refine ⟨rfl, fun mem b m hfit => ?_⟩
    rw [readCfg_eq hholds hlive'.initOk]
    exact readCfg_of_get m hget hne (by rw [htake]; exact hfit)
  · left
    have hsame : (((writeCfgCalls (buff.take len)).take j).foldl Vars.perform ⟨t, t⟩).stored = t := by
      obtain rfl | rfl | rfl : j = 0 ∨ j = 1 ∨ j = 2 := by omega
      all_goals rfl
    rw [hsame] at hstored
    obtain ⟨_, _, hlive'⟩ := live_of_started hstored (by omega) hrestart
    refine ⟨?_, ?_, fun mem b m => ?_⟩
    · cases hrc : ((writeCfg e p.part heap buff len).run s0).1 with
      | none => rfl
      | some rc =>
        obtain ⟨u, hu⟩ := hreturns rc hrc
        have hreturned := returnedCalls_of_some p.part (writeCfgCalls (buff.take len)) hu
        omega
    · rw [getLen_eq hlive'.holds hlive'.initOk, getLen_eq hlive.holds hlive.initOk]
    · rw [readCfg_eq hlive'.holds hlive'.initOk, readCfg_eq hlive.holds hlive.initOk]

end

/-! ### An example -/

/-- `rt_malloc` never fails, and the block is filled with zeros. -/
def zeroHeap : Heap := fun n => some ⟨List.replicate n 0, List.length_replicate⟩

def settings : Bytes := ascii "espush"

namespace WifiLemmas

section

variable {e : FlashEnv} {p : EnvPartition e} {s : Ef} {t : EnvTable}

/-- Without a power cut, `write_cfg` returns. -/
theorem writeCfg_returns (hcut : ∀ n found, e.fate n ≠ .cut found) (h : Holds s t)
    (hinit : s.initOk = true) {side : Bool} (hnext : s.nextSaveAreaAddr = areaAddr side)
    (buff : Bytes) {len : Nat} (hlen : len ≤ buff.length) :
    ∃ rc s', (writeCfg e p.part zeroHeap buff len).run s = (some rc, s') := by
  have hfirst := (run_efSetEnv h hinit wlanCfgLen (CStr.ofNat (buff.take len).length)).2
  have hinit1 := hfirst.initOk.trans hinit
  have hsecond := (run_efSetEnv hfirst.holds hinit1 wlanCfgInfo
    (CStr.ofBytes (Base64.encode (buff.take len)))).2
  have hnext2 := hsecond.next.trans (hfirst.next.trans hnext)
  rw [run_writeCfg p.part rfl hlen]
  simp only [performCalls, writeCfgCalls, EnvCall.perform, Powered.run_bind, Powered.run_liftProg]
  generalize ((efSetEnv wlanCfgInfo _).run _).2 = s2 at hsecond hnext2 ⊢
  cases hchanged : s2.envCacheChanged with
  | false =>
    rw [run_efSaveEnv_unchanged e p.part hchanged]
    exact ⟨_, _, rfl⟩
  | true =>
    have hresult := (run_efSaveEnv p hsecond.holds hnext2 hchanged).result
    generalize (efSaveEnv e p.part).run s2 = r at hresult ⊢
    obtain ⟨_ | rc, s'⟩ := r
    · obtain ⟨hok, _⟩ | ⟨_, ⟨hr, _⟩ | ⟨hr, _⟩⟩ | ⟨⟨k, found, hfate⟩, _⟩ := hresult
      · cases hok
      · cases hr
      · cases hr
      · exact absurd hfate (hcut k found)
    · exact ⟨_, _, rfl⟩

/-- Settings of another length are cut off when every erase is. -/
theorem writeCfg_cut (he : ∀ n, e.fate n = .cut fun _ => 0xFF) (h : Holds s t)
    (hinit : s.initOk = true) {side : Bool} (hnext : s.nextSaveAreaAddr = areaAddr side)
    {buff : Bytes} {len : Nat} (hlen : len ≤ buff.length)
    (hne : (t.writeCfg (buff.take len)).getLen ≠ t.getLen) :
    ((writeCfg e p.part zeroHeap buff len).run s).1 = none := by
  have hfirst := (run_efSetEnv h hinit wlanCfgLen (CStr.ofNat (buff.take len).length)).2
  have hinit1 := hfirst.initOk.trans hinit
  have hsecond := (run_efSetEnv hfirst.holds hinit1 wlanCfgInfo
    (CStr.ofBytes (Base64.encode (buff.take len)))).2
  have hnext2 := hsecond.next.trans (hfirst.next.trans hnext)
  have hedits : Edits s _ t (t.writeCfg (buff.take len)) := hfirst.trans hsecond
  have hchanged := hedits.changed
  rw [run_writeCfg p.part rfl hlen]
  simp only [performCalls, writeCfgCalls, EnvCall.perform, Powered.run_bind, Powered.run_liftProg]
  generalize ((efSetEnv wlanCfgInfo _).run _).2 = s2 at hsecond hnext2 hchanged ⊢
  rcases hchanged with hchanged | ⟨_, hsame⟩
  · have hends := (run_efSaveEnv p hsecond.holds hnext2 hchanged).ends
    generalize (efSaveEnv e p.part).run s2 = r at hends ⊢
    obtain ⟨r, s'⟩ := r
    dsimp only at hends
    generalize s'.envCacheChanged = changed at hends
    generalize s'.chip = c at hends
    cases hends with
    | eraseCut found herase => rfl
    | done herase hwrite => rw [he] at herase; cases herase
    | eraseFailed found herase => rw [he] at herase; cases herase
    | writeFailed found herase hwrite => rw [he] at herase; cases herase
    | writeCut found herase hwrite => rfl
  · exact absurd (congrArg EnvTable.getLen hsame) hne

/-- A table other than the defaults is found by every start. -/
theorem started (hfail : ∀ k found, e.fate k ≠ .failed found) {c : Chip} {n : Nat}
    (h : Stored p c.cells n t) (hn : n < 0xFFFFFFFF) (hne : t ≠ EnvTable.default) :
    ∃ s k, (efEnvInit e p.part).run (Ef.boot c) = (some .noErr, s) ∧ k ≤ n + 2 ∧
      Live p s k ⟨t, t⟩ := by
  rcases run_efEnvInit h hn with ⟨s, hrun, k, hk, hlive⟩ | ⟨⟨k, found, hfate⟩, _⟩ | ⟨_, hdefault, _⟩
  · exact ⟨s, k, hrun, hk, hlive⟩
  · exact absurd hfate (hfail k found)
  · exact absurd hdefault hne

end

end WifiLemmas

/-- Settings are written next to a greeting, and read, although they cannot be saved. -/
theorem write_cfg_then_read_cfg_unsaved :
    ∃ s rc s', envString s greetKey = some greetValue.bytes ∧
      (writeCfg (boardFlash writeFails) (boardPartition writeFails).part zeroHeap settings 6).run s =
        (some rc, s') ∧
      rc = (6 : Nat) ∧ (getLen s' = (6 : Nat) ∨ getLen s' = 0) ∧
      ((∀ (mem : Bytes) (b n : Nat), b + 6 + 1 ≤ mem.length →
          readCfg s' mem b n = ((n : Int), patch mem b (settings.take 6 ++ [0]))) ∨
        ∀ (mem : Bytes) (b n : Nat), readCfg s' mem b n = (0, mem)) ∧
      (greetedTable.HasRoom 6 → getLen s' = (6 : Nat) ∧
        ∀ (mem : Bytes) (b n : Nat), b + 6 + 1 ≤ mem.length →
          readCfg s' mem b n = ((n : Int), patch mem b (settings.take 6 ++ [0]))) := by
  obtain ⟨_, s, _, _, hlive, _, hnext, _, _⟩ := greeted (boardPartition writeFails)
  have hcut : ∀ n found, (boardFlash writeFails).fate n ≠ .cut found := by
    intro n found hfate
    have hfate : writeFails n = .cut found := hfate
    unfold writeFails at hfate
    split at hfate <;> cases hfate
  have hget : greetedTable.get greetKey = some greetValue := by decide +kernel
  have hgreet := envString_eq hlive.holds hlive.initOk (k := greetKey) (by decide)
  rw [hget] at hgreet
  have hlen : 6 ≤ settings.length := by decide
  obtain ⟨rc, s', hrun⟩ := writeCfg_returns (p := boardPartition writeFails) hcut hlive.holds
    hlive.initOk hnext settings hlen
  exact ⟨s, rc, s', hgreet, hrun, write_cfg_then_read_cfg (boardPartition writeFails) s greetedTable
    true zeroHeap settings 6 hlive.holds hlive.initOk hnext (by decide) (by decide)
    (by simp [zeroHeap]) rc s' hrun⟩

/-- No byte is written and read. -/
theorem empty_settings_store_before_buffer_none :
    ∃ rc s', (writeCfg (boardFlash fun _ => .done) (boardPartition fun _ => .done).part zeroHeap []
        0).run emptyEf = (some rc, s') ∧
      rc = 0 ∧ getLen s' = 0 ∧
      ∀ (mem : Bytes) (b n : Nat), readCfg s' mem (b + 1) n = ((n : Int), patch mem b [0]) := by
  have hroom : EnvTable.empty.HasRoom 0 := by
    unfold EnvTable.HasRoom
    decide
  have hnext : emptyEf.nextSaveAreaAddr = areaAddr true := rfl
  obtain ⟨rc, s', hrun⟩ := writeCfg_returns (p := boardPartition fun _ => .done)
    (fun _ _ hfate => by cases hfate) holds_emptyEf rfl hnext [] (Nat.le_refl 0)
  exact ⟨rc, s', hrun, empty_settings_store_before_buffer (boardPartition fun _ => .done) emptyEf
    EnvTable.empty true zeroHeap [] holds_emptyEf rfl rfl (by simp [zeroHeap]) hroom rc s' hrun⟩

def oldSettings : Bytes := ascii "old"

/-- The table of a board that was set up. -/
def setUpTable : EnvTable := EnvTable.default.writeCfg oldSettings

/-- Every erase is cut off, and leaves erased cells. -/
def cutErase (_ : Nat) : Fate := .cut fun _ => 0xFF

/-- Power is lost while other settings are stored on a board that was set up. -/
theorem settings_survive_power_cut_old :
    ∃ s0 s1, (efEnvInit (boardFlash cutErase) (boardPartition cutErase).part).run
        (Ef.boot (chipWith (boardPartition cutErase) setUpTable)) = (some .noErr, s0) ∧
      getLen s0 = (3 : Nat) ∧
      ((writeCfg (boardFlash cutErase) (boardPartition cutErase).part zeroHeap settings 6).run
        s0).1 = none ∧
      (efEnvInit (boardFlash cutErase) (boardPartition cutErase).part).run
        (Ef.boot ((writeCfg (boardFlash cutErase) (boardPartition cutErase).part zeroHeap settings
          6).run s0).2.chip) = (some .noErr, s1) ∧
      ((((writeCfg (boardFlash cutErase) (boardPartition cutErase).part zeroHeap settings 6).run
            s0).1 = none ∧ getLen s1 = getLen s0 ∧
          ∀ (mem : Bytes) (b m : Nat), readCfg s1 mem b m = readCfg s0 mem b m) ∨
        getLen s1 = (6 : Nat) ∧ ∀ (mem : Bytes) (b m : Nat), b + 6 + 1 ≤ mem.length →
          readCfg s1 mem b m = ((m : Int), patch mem b (settings.take 6 ++ [0]))) := by
  have he : ∀ n, (boardFlash cutErase).fate n = .cut fun _ => 0xFF := fun _ => rfl
  have hfail : ∀ k found, (boardFlash cutErase).fate k ≠ .failed found :=
    fun _ _ hfate => by cases hfate
  have hsize : EnvTable.default.size ≤ 100 := by decide +kernel
  have hmax : envUserSettingSize = 2048 := rfl
  have hroomOld : EnvTable.default.HasRoom oldSettings.length := by
    have hlen : oldSettings.length = 3 := rfl
    unfold EnvTable.HasRoom
    omega
  have hroom : setUpTable.HasRoom 6 := by
    have hold := (writeCfg_of_room hroomOld).2.2
    have hlen : oldSettings.length = 3 := rfl
    unfold EnvTable.HasRoom
    unfold setUpTable
    omega
  have hlenOld : setUpTable.getLen = (3 : Nat) := (get_writeCfg_of_room hroomOld).1
  have hroomNew : setUpTable.HasRoom (settings.take 6).length := hroom
  have hlenNew : (setUpTable.writeCfg (settings.take 6)).getLen = (6 : Nat) :=
    (get_writeCfg_of_room hroomNew).1
  have hlenDefault : EnvTable.default.getLen = 0 := by decide +kernel
  have hstored := stored_chipWith (boardPartition cutErase) setUpTable
  have hneOld : setUpTable ≠ EnvTable.default := fun h => by
    rw [h, hlenDefault] at hlenOld
    cases hlenOld
  have hneNew : setUpTable.writeCfg (settings.take 6) ≠ EnvTable.default := fun h => by
    rw [h, hlenDefault] at hlenNew
    cases hlenNew
  obtain ⟨s0, k, hstart, hk, hlive⟩ := started hfail hstored (by decide) hneOld
  obtain ⟨x, side, _, _, _, hnext⟩ := hlive.flash
  have hcalls : (writeCfgCalls (settings.take 6)).length = 3 := rfl
  have hnoticed := callsNoticed_erased he (writeCfgCalls (settings.take 6)) hlive (by omega)
  have hlen : 6 ≤ settings.length := by decide
  have hcut := writeCfg_cut (p := boardPartition cutErase) he hlive.holds hlive.initOk hnext hlen
    (by rw [hlenOld, hlenNew]; decide)
  obtain ⟨j, _, hwritten⟩ := run_calls hfail (writeCfgCalls (settings.take 6)) hlive (by omega) hnoticed
  have hends : ((writeCfg (boardFlash cutErase) (boardPartition cutErase).part zeroHeap settings 6).run
      s0).2 = _ := (writeCfg_ends _ rfl hlen s0).1
  rw [← hends] at hwritten
  have hne : (((writeCfgCalls (settings.take 6)).take j).foldl Vars.perform
      ⟨setUpTable, setUpTable⟩).stored ≠ EnvTable.default := by
    obtain rfl | rfl | rfl | hall : j = 0 ∨ j = 1 ∨ j = 2 ∨ 3 ≤ j := by omega
    · exact hneOld
    · exact hneOld
    · exact hneOld
    · rw [List.take_of_length_le (l := writeCfgCalls _) (by rw [hcalls]; exact hall)]
      exact hneNew
  obtain ⟨s1, _, hrestart, _⟩ := started hfail hwritten (by omega) hne
  refine ⟨s0, s1, hstart, ?_, hcut, hrestart, settings_survive_power_cut (boardPartition cutErase)
    setUpTable zeroHeap settings 6 hfail _ 1 hstored (by decide) (by decide) (by decide)
    (by simp [zeroHeap]) hroom s0 s1 hstart hnoticed hrestart⟩
  rw [getLen_eq hlive.holds hlive.initOk]
  exact hlenOld

end EspushW60x
