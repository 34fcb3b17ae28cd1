import EspushW60x.EnvPower
import EspushW60x.Lib.Base64
import EspushW60x.Lib.Decimal

/-!
# `wifi_config.c`: the Wi-Fi settings in the environment variables

RT-Thread hands over its settings as a block of bytes. They are kept as Base64 text in
`wlan_cfg_info`, and their number as decimal text in `wlan_cfg_len`.

A pointer is a memory and an offset, so that what lies before it can be read and stored
to. Lengths are such that no `int` overflows.

Results:
* `strBase64EncodeLen_eq`, `strBase64Decode_eq`: what the codec stores;
* `base64_round_trip`: settings survive the codec, in the buffer that `write_cfg` gets.
-/

namespace EspushW60x

open Lib

/-! ## The codec -/

def base64Table : Bytes := ascii "ABCDEFGHIJKLMNOPQRSTUVWXYZabcdefghijklmnopqrstuvwxyz0123456789+/"

def base64DecodeTable : Bytes := [
  0x00, 0x00, 0x00, 0x00, 0x00, 0x00, 0x00, 0x00, 0x00, 0x00, 0x00, 0x00, 0x00, 0x00, 0x00, 0x00,
  0x00, 0x00, 0x00, 0x00, 0x00, 0x00, 0x00, 0x00, 0x00, 0x00, 0x00, 0x00, 0x00, 0x00, 0x00, 0x00,
  0x00, 0x00, 0x00, 0x00, 0x00, 0x00, 0x00, 0x00, 0x00, 0x00, 0x00, 0x3E, 0x00, 0x00, 0x00, 0x3F,
  0x34, 0x35, 0x36, 0x37, 0x38, 0x39, 0x3A, 0x3B, 0x3C, 0x3D, 0x00, 0x00, 0x00, 0x00, 0x00, 0x00,
  0x00, 0x00, 0x01, 0x02, 0x03, 0x04, 0x05, 0x06, 0x07, 0x08, 0x09, 0x0A, 0x0B, 0x0C, 0x0D, 0x0E,
  0x0F, 0x10, 0x11, 0x12, 0x13, 0x14, 0x15, 0x16, 0x17, 0x18, 0x19, 0x00, 0x00, 0x00, 0x00, 0x00,
  0x00, 0x1A, 0x1B, 0x1C, 0x1D, 0x1E, 0x1F, 0x20, 0x21, 0x22, 0x23, 0x24, 0x25, 0x26, 0x27, 0x28,
  0x29, 0x2A, 0x2B, 0x2C, 0x2D, 0x2E, 0x2F, 0x30, 0x31, 0x32, 0x33, 0x00, 0x00, 0x00, 0x00, 0x00,
  0x00, 0x00, 0x00, 0x00, 0x00, 0x00, 0x00, 0x00, 0x00, 0x00, 0x00, 0x00, 0x00, 0x00, 0x00, 0x00,
  0x00, 0x00, 0x00, 0x00, 0x00, 0x00, 0x00, 0x00, 0x00, 0x00, 0x00, 0x00, 0x00, 0x00, 0x00, 0x00,
  0x00, 0x00, 0x00, 0x00, 0x00, 0x00, 0x00, 0x00, 0x00, 0x00, 0x00, 0x00, 0x00, 0x00, 0x00, 0x00,
  0x00, 0x00, 0x00, 0x00, 0x00, 0x00, 0x00, 0x00, 0x00, 0x00, 0x00, 0x00, 0x00, 0x00, 0x00, 0x00,
  0x00, 0x00, 0x00, 0x00, 0x00, 0x00, 0x00, 0x00, 0x00, 0x00, 0x00, 0x00, 0x00, 0x00, 0x00, 0x00,
  0x00, 0x00, 0x00, 0x00, 0x00, 0x00, 0x00, 0x00, 0x00, 0x00, 0x00, 0x00, 0x00, 0x00, 0x00, 0x00,
  0x00, 0x00, 0x00, 0x00, 0x00, 0x00, 0x00, 0x00, 0x00, 0x00, 0x00, 0x00, 0x00, 0x00, 0x00, 0x00,
  0x00, 0x00, 0x00, 0x00, 0x00, 0x00, 0x00, 0x00, 0x00, 0x00, 0x00, 0x00, 0x00, 0x00, 0x00, 0x00]

/-- The character for a value. -/
def base64Char (n : UInt8) : UInt8 := byteAt base64Table n.toNat

/-- `str_base64_encode_len` from the pointers `in` and `pos` on. -/
def strBase64EncodeFrom : Bytes → Nat → Bytes → Bytes
  | a :: b :: c :: rest, pos, out =>
    let out := patch out pos [base64Char (a >>> 2)]
    let out := patch out (pos + 1) [base64Char ((a &&& 0x03) <<< 4 ||| b >>> 4)]
    let out := patch out (pos + 2) [base64Char ((b &&& 0x0F) <<< 2 ||| c >>> 6)]
    let out := patch out (pos + 3) [base64Char (c &&& 0x3F)]
    strBase64EncodeFrom rest (pos + 4) out
  | [a, b], pos, out =>
    let out := patch out pos [base64Char (a >>> 2)]
    let out := patch out (pos + 1) [base64Char ((a &&& 0x03) <<< 4 ||| b >>> 4)]
    let out := patch out (pos + 2) [base64Char ((b &&& 0x0F) <<< 2)]
    let out := patch out (pos + 3) ['='.toUInt8]
    patch out (pos + 4) [0]
  | [a], pos, out =>
    let out := patch out pos [base64Char (a >>> 2)]
    let out := patch out (pos + 1) [base64Char ((a &&& 0x03) <<< 4)]
    let out := patch out (pos + 2) ['='.toUInt8]
    let out := patch out (pos + 3) ['='.toUInt8]
    patch out (pos + 4) [0]
  | [], pos, out => patch out pos [0]

def strBase64EncodeLen (src out : Bytes) (len : Nat) : Bytes :=
  strBase64EncodeFrom (src.take len) 0 out

/-- `data[i] == '=' ? 0 & i++ : base64_decode_table[data[i++]]` -/
def sextet (data : Bytes) (i : Nat) : Nat :=
  if byteAt data i = '='.toUInt8 then 0
  else (byteAt base64DecodeTable (byteAt data i).toNat).toNat

/-- `if (j < out_len) decoded_data[j++] = b` -/
def storeDecoded (decoded : Nat) (outLen : Int) (b : Nat) (s : Nat × Bytes) : Nat × Bytes :=
  if (s.1 : Int) < outLen then (s.1 + 1, patch s.2 (decoded + s.1) [UInt8.ofNat b]) else s

/-- The loop of `str_base64_decode`, with `n` groups left. -/
def strBase64DecodeFrom (data : Bytes) (decoded : Nat) (outLen : Int) :
    Nat → Nat → Nat × Bytes → Bytes
  | 0, _, s => s.2
  | n + 1, i, s =>
    let triple := sextet data i <<< (3 * 6) + sextet data (i + 1) <<< (2 * 6) +
      sextet data (i + 2) <<< (1 * 6) + sextet data (i + 3) <<< (0 * 6)
    let s := storeDecoded decoded outLen (triple >>> (2 * 8)) s
    let s := storeDecoded decoded outLen (triple >>> (1 * 8)) s
    let s := storeDecoded decoded outLen (triple >>> (0 * 8)) s
    strBase64DecodeFrom data decoded outLen n (i + 4) s

/-- `out_len`: three bytes for each group, less one for each pad at the end. At least two
bytes lie before the text. -/
def decodedLen (data : Bytes) (start inputLength : Nat) : Int :=
  let outLen : Int := (inputLength / 4 * 3 : Nat)
  let outLen := if byteAt data (start + inputLength - 1) = '='.toUInt8 then outLen - 1 else outLen
  if byteAt data (start + inputLength - 2) = '='.toUInt8 then outLen - 1 else outLen

/-- The text of `inputLength` characters at `data + start` is decoded to `buf + decoded`:
the value returned, and the memory `buf`. -/
def strBase64Decode (data : Bytes) (start inputLength : Nat) (buf : Bytes) (decoded : Nat) :
    Int × Bytes :=
  if inputLength % 4 ≠ 0 then (0, buf)
  else
    let outLen := decodedLen data start inputLength
    let buf := strBase64DecodeFrom data decoded outLen (inputLength / 4) start (0, buf)
    (outLen, patch buf (decoded + outLen).toNat [0])

/-! ## The settings -/

def wlanCfgInfo : CStr := ⟨ascii "wlan_cfg_info", ne_zero_of_all (by decide)⟩

def wlanCfgLen : CStr := ⟨ascii "wlan_cfg_len", ne_zero_of_all (by decide)⟩

/-- `isspace` -/
def isSpace (c : UInt8) : Bool := c = ' '.toUInt8 ∨ (9 ≤ c ∧ c ≤ 13)

/-- `atoi`, for a number that an `int` has room for. -/
def atoi (s : Bytes) : Int :=
  match s.dropWhile isSpace with
  | [] => 0
  | c :: rest =>
    if c = '-'.toUInt8 then -(Decimal.read rest 0 : Nat)
    else if c = '+'.toUInt8 then (Decimal.read rest 0 : Nat)
    else (Decimal.read (c :: rest) 0 : Nat)

/-- The value returned, and the memory that `buff` points into. -/
def readCfg (s : Ef) (mem : Bytes) (buff len : Nat) : Int × Bytes :=
  match efGetEnv s wlanCfgInfo with
  | some info =>
    (len, (strBase64Decode s.envCache info (cString (s.envCache.drop info)).length mem buff).2)
  | none => (0, mem)

def getLen (s : Ef) : Int :=
  match efGetEnv s wlanCfgLen with
  | none => 0
  | some value => atoi (cString (s.envCache.drop value))

theorem cString_ne_zero (bs : Bytes) : ∀ b ∈ cString bs, b ≠ 0 := ne_zero_of_all List.all_takeWhile

/-- The string in a buffer. -/
def CStr.ofBytes (bs : Bytes) : CStr := ⟨cString bs, cString_ne_zero bs⟩

/-- `sprintf(…, "%d", n)` -/
def CStr.ofNat (n : Nat) : CStr where
  bytes := Decimal.text n
  ne_zero b hb h := by
    have hdigit := Decimal.isDigit_text n b hb
    rw [h] at hdigit
    exact absurd hdigit.1 (by decide)

/-- `RT_ENOMEM` -/
def rtEnomem : Int := 5

/-- `rt_malloc` returns a block of the size that was asked for, or NULL. -/
abbrev Heap := (n : Nat) → Option { block : Bytes // block.length = n }

def writeCfg (e : FlashEnv) (part : FalPartition) (heap : Heap) (buff : Bytes) (len : Nat) :
    Powered Ef Int := do
  match heap (len * 4 / 3 + 4) with
  | none => return -rtEnomem
  | some base64Buf =>
    let base64Buf := patch base64Buf.1 0 (List.replicate len 0)
    let _ ← efSetEnv wlanCfgLen (some (CStr.ofNat len))
    let base64Buf := strBase64EncodeLen buff base64Buf len
    let _ ← efSetEnv wlanCfgInfo (some (CStr.ofBytes base64Buf))
    let _ ← efSaveEnv e part
    return len

namespace WifiLemmas

/-! ## Encoding -/

theorem base64Char_eq {n : UInt8} (h : n < 64) : base64Char n = Base64.digit n := by
  have hall : ∀ n : UInt8, n < 64 → base64Char n = Base64.digit n :=
    Hex.forall_uint8 (by decide +kernel)
  exact hall n h

/-- Four stores next to each other are one. -/
theorem patch_four {out : Bytes} {pos : Nat} (w x y z : UInt8) (h : pos + 4 ≤ out.length) :
    patch (patch (patch (patch out pos [w]) (pos + 1) [x]) (pos + 2) [y]) (pos + 3) [z] =
      patch out pos [w, x, y, z] := by
  have h2 : patch (patch out pos [w]) (pos + 1) [x] = patch out pos [w, x] :=
    patch_patch (show pos + 1 + 1 ≤ _ by omega)
  have h3 : patch (patch out pos [w, x]) (pos + 2) [y] = patch out pos [w, x, y] :=
    patch_patch (show pos + 2 + 1 ≤ _ by omega)
  have h4 : patch (patch out pos [w, x, y]) (pos + 3) [z] = patch out pos [w, x, y, z] :=
    patch_patch (show pos + 3 + 1 ≤ _ by omega)
  rw [h2, h3, h4]

/-- Four stores, and one more behind them. -/
theorem patch_four_append {out : Bytes} {pos : Nat} (w x y z : UInt8) (bs : Bytes)
    (h : pos + 4 + bs.length ≤ out.length) :
    patch (patch (patch (patch (patch out pos [w]) (pos + 1) [x]) (pos + 2) [y]) (pos + 3) [z])
      (pos + 4) bs = patch out pos ([w, x, y, z] ++ bs) := by
  rw [patch_four w x y z (by omega)]
  exact patch_patch h

/-- The loop stores the text of the bytes left, and a NUL. -/
theorem strBase64EncodeFrom_eq (bs : Bytes) {out : Bytes} {pos : Nat}
    (h : pos + ((bs.length + 2) / 3 * 4 + 1) ≤ out.length) :
    strBase64EncodeFrom bs pos out = patch out pos (Base64.encode bs ++ [0]) := by
  induction bs using Base64.encode.induct generalizing out pos with
  | case1 => simp [strBase64EncodeFrom, Base64.encode]
  | case2 a =>
    obtain ⟨⟨h0, _⟩, ⟨h1, _⟩, _⟩ := Base64.sextets a 0 0
    rw [show (0 : UInt8) >>> 4 = 0 from rfl, UInt8.or_zero] at h1
    rw [strBase64EncodeFrom, base64Char_eq h0, base64Char_eq h1, Base64.encode]
    simp only [List.length_cons, List.length_nil] at h
    exact patch_four_append _ _ _ _ _ (show pos + 4 + 1 ≤ _ by omega)
  | case3 a b =>
    obtain ⟨⟨h0, _⟩, ⟨h1, _⟩, ⟨h2, _⟩, _⟩ := Base64.sextets a b 0
    rw [show (0 : UInt8) >>> 6 = 0 from rfl, UInt8.or_zero] at h2
    rw [strBase64EncodeFrom, base64Char_eq h0, base64Char_eq h1, base64Char_eq h2, Base64.encode]
    simp only [List.length_cons, List.length_nil] at h
    exact patch_four_append _ _ _ _ _ (show pos + 4 + 1 ≤ _ by omega)
  | case4 a b c rest ih =>
    obtain ⟨⟨h0, _⟩, ⟨h1, _⟩, ⟨h2, _⟩, h3, _⟩ := Base64.sextets a b c
    simp only [List.length_cons] at h
    have hrest : (Base64.encode rest ++ [0]).length = (rest.length + 2) / 3 * 4 + 1 := by
      rw [List.length_append, Base64.length_encode]
      rfl
    rw [strBase64EncodeFrom, base64Char_eq h0, base64Char_eq h1, base64Char_eq h2, base64Char_eq h3]
    rw [ih (by simp only [length_patch]; omega), patch_four_append _ _ _ _ _ (by rw [hrest]; omega),
      Base64.encode]
    rfl

end WifiLemmas

open WifiLemmas

/-- `str_base64_encode_len` stores the text of the bytes and a NUL. -/
theorem strBase64EncodeLen_eq {src out : Bytes} {len : Nat} (hsrc : len ≤ src.length)
    (h : (len + 2) / 3 * 4 + 1 ≤ out.length) :
    strBase64EncodeLen src out len = patch out 0 (Base64.encode (src.take len) ++ [0]) := by
  have htake : (src.take len).length = len := by rw [List.length_take, Nat.min_eq_left hsrc]
  exact strBase64EncodeFrom_eq _ (by rw [htake]; omega)

theorem WifiLemmas.cString_encoded {src block : Bytes} {len : Nat} (hsrc : len ≤ src.length)
    (h : (len + 2) / 3 * 4 + 1 ≤ block.length) :
    cString (strBase64EncodeLen src block len) = Base64.encode (src.take len) := by
  have htake : (src.take len).length = len := by rw [List.length_take, Nat.min_eq_left hsrc]
  have hlen := Base64.length_encode (src.take len)
  have hfit : 0 + (Base64.encode (src.take len) ++ [0]).length ≤ block.length := by
    rw [List.length_append, List.length_singleton]
    omega
  rw [strBase64EncodeLen_eq hsrc h, patch_eq hfit, List.take_zero, List.nil_append, List.append_assoc]
  exact cString_append (Base64.encode_ne_zero _) _

namespace WifiLemmas

/-! ## Decoding -/

theorem base64DecodeTable_eq : ∀ c : UInt8, byteAt base64DecodeTable c.toNat = Base64.value c :=
  Hex.forall_uint8 (by decide +kernel)

section

variable {data : Bytes} {i : Nat} {n : UInt8}

/-- The value of a character that stands for one. -/
theorem sextet_digit (hn : n < 64) (h : byteAt data i = Base64.digit n) : sextet data i = n.toNat := by
  obtain ⟨hvalue, hpad, _⟩ := Base64.value_digit hn
  have hne : ¬ byteAt data i = '='.toUInt8 := fun heq => hpad (h.symm.trans heq)
  rw [sextet, if_neg hne, h, base64DecodeTable_eq, hvalue]

theorem sextet_pad (h : byteAt data i = Base64.pad) : sextet data i = 0 := if_pos h

/-- A character of the text at `i`. -/
theorem byteAt_of_drop {xs : Bytes} (h : data.drop i = xs) (k : Nat) : byteAt data (i + k) = byteAt xs k := by
  rw [← h, EnvLemmas.byteAt_drop]

end

section

variable {decoded j : Nat} {outLen : Int} {buf : Bytes}

theorem storeDecoded_lt (b : Nat) (h : (j : Int) < outLen) :
    storeDecoded decoded outLen b (j, buf) = (j + 1, patch buf (decoded + j) [UInt8.ofNat b]) :=
  if_pos h

theorem storeDecoded_ge (b : Nat) (h : ¬ (j : Int) < outLen) :
    storeDecoded decoded outLen b (j, buf) = (j, buf) := if_neg h

end

/-- The byte of a group. -/
theorem ofNat_eq {n : Nat} {b : UInt8} (h : n % 256 = b.toNat) : UInt8.ofNat n = b := by
  apply UInt8.toNat_inj.mp
  rw [UInt8.toNat_ofNat', h]

theorem patch_nil (m : Bytes) {off : Nat} (h : off ≤ m.length) : patch m off [] = m := by
  rw [patch_eq (by simpa using h)]
  simp

/-- One group of four characters. -/
theorem strBase64DecodeFrom_succ {data buf : Bytes} {decoded i j : Nat} {outLen : Int}
    {w x y z : UInt8} (h0 : sextet data i = w.toNat) (h1 : sextet data (i + 1) = x.toNat)
    (h2 : sextet data (i + 2) = y.toNat) (h3 : sextet data (i + 3) = z.toNat) (n : Nat) :
    strBase64DecodeFrom data decoded outLen (n + 1) i (j, buf) =
      strBase64DecodeFrom data decoded outLen n (i + 4)
        (storeDecoded decoded outLen (Base64.join w x y z)
          (storeDecoded decoded outLen (Base64.join w x y z / 0x100)
            (storeDecoded decoded outLen (Base64.join w x y z / 0x10000) (j, buf)))) := by
  have htriple : sextet data i <<< (3 * 6) + sextet data (i + 1) <<< (2 * 6) +
      sextet data (i + 2) <<< (1 * 6) + sextet data (i + 3) <<< (0 * 6) = Base64.join w x y z := by
    rw [h0, h1, h2, h3, Nat.shiftLeft_eq, Nat.shiftLeft_eq, Nat.shiftLeft_eq, Nat.zero_mul,
      Nat.shiftLeft_zero]
    rfl
  have htop : Base64.join w x y z >>> (2 * 8) = Base64.join w x y z / 0x10000 :=
    Nat.shiftRight_eq_div_pow _ _
  have hmiddle : Base64.join w x y z >>> (1 * 8) = Base64.join w x y z / 0x100 :=
    Nat.shiftRight_eq_div_pow _ _
  have hlast : Base64.join w x y z >>> (0 * 8) = Base64.join w x y z := Nat.shiftRight_zero
  rw [strBase64DecodeFrom, htriple, htop, hmiddle, hlast]

/-- The loop stores the bytes that are left of the text. -/
theorem strBase64DecodeFrom_eq (bs : Bytes) {data rest buf : Bytes} {i j decoded outLen : Nat}
    (hdata : data.drop i = Base64.encode bs ++ rest) (hout : j + bs.length = outLen)
    (hfit : decoded + outLen ≤ buf.length) :
    strBase64DecodeFrom data decoded outLen ((bs.length + 2) / 3) i (j, buf) =
      patch buf (decoded + j) bs := by
  induction bs using Base64.encode.induct generalizing i j buf with
  | case1 =>
    simp only [List.length_nil] at hout ⊢
    rw [patch_nil buf (by omega)]
    rfl
  | case2 a =>
    obtain ⟨⟨h0, _⟩, ⟨h1, _⟩, _⟩ := Base64.sextets a 0 0
    rw [show (0 : UInt8) >>> 4 = 0 from rfl, UInt8.or_zero] at h1
    have hchar := byteAt_of_drop hdata
    rw [Base64.encode] at hchar
    have ha := a.toNat_lt
    simp only [List.length_cons, List.length_nil] at hout ⊢
    have hj : (j : Int) < outLen := by omega
    have hj' : ¬ ((j + 1 : Nat) : Int) < outLen := by omega
    rw [show (0 + 1 + 2) / 3 = 0 + 1 from rfl,
      strBase64DecodeFrom_succ (i := i) (y := 0) (z := 0) (sextet_digit h0 (hchar 0))
      (sextet_digit h1 (hchar 1)) (sextet_pad (hchar 2)) (sextet_pad (hchar 3)), Base64.join_one,
      storeDecoded_lt _ hj, storeDecoded_ge _ hj', storeDecoded_ge _ hj',
      ofNat_eq (b := a) (by omega)]
    rfl
  | case3 a b =>
    obtain ⟨⟨h0, _⟩, ⟨h1, _⟩, ⟨h2, _⟩, _⟩ := Base64.sextets a b 0
    rw [show (0 : UInt8) >>> 6 = 0 from rfl, UInt8.or_zero] at h2
    have hchar := byteAt_of_drop hdata
    rw [Base64.encode] at hchar
    have ha := a.toNat_lt
    have hb := b.toNat_lt
    simp only [List.length_cons, List.length_nil] at hout ⊢
    have hj : (j : Int) < outLen := by omega
    have hj' : ((j + 1 : Nat) : Int) < outLen := by omega
    have hj'' : ¬ ((j + 1 + 1 : Nat) : Int) < outLen := by omega
    rw [show (0 + 1 + 1 + 2) / 3 = 0 + 1 from rfl,
      strBase64DecodeFrom_succ (i := i) (z := 0) (sextet_digit h0 (hchar 0))
      (sextet_digit h1 (hchar 1)) (sextet_digit h2 (hchar 2)) (sextet_pad (hchar 3)),
      Base64.join_two, storeDecoded_lt _ hj, storeDecoded_lt _ hj', storeDecoded_ge _ hj'',
      ofNat_eq (b := a) (by omega), ofNat_eq (b := b) (by omega)]
    exact patch_patch (show decoded + j + 1 + 1 ≤ _ by omega)
  | case4 a b c rest ih =>
    obtain ⟨⟨h0, _⟩, ⟨h1, _⟩, ⟨h2, _⟩, h3, _⟩ := Base64.sextets a b c
    have hchar := byteAt_of_drop hdata
    rw [Base64.encode] at hchar hdata
    have hdrop := congrArg (List.drop 4) hdata
    rw [List.drop_drop] at hdrop
    have ha := a.toNat_lt
    have hb := b.toNat_lt
    have hc := c.toNat_lt
    simp only [List.length_cons] at hout ⊢
    have hgroups : (rest.length + 1 + 1 + 1 + 2) / 3 = (rest.length + 2) / 3 + 1 := by omega
    have hthree : patch (patch (patch buf (decoded + j) [a]) (decoded + (j + 1)) [b])
        (decoded + (j + 1 + 1)) [c] = patch buf (decoded + j) [a, b, c] := by
      have htwo : patch (patch buf (decoded + j) [a]) (decoded + (j + 1)) [b] =
          patch buf (decoded + j) [a, b] := patch_patch (show decoded + j + 1 + 1 ≤ _ by omega)
      rw [htwo]
      exact patch_patch (show decoded + j + 2 + 1 ≤ _ by omega)
    have hj : (j : Int) < outLen := by omega
    have hj' : ((j + 1 : Nat) : Int) < outLen := by omega
    have hj'' : ((j + 1 + 1 : Nat) : Int) < outLen := by omega
    rw [hgroups, strBase64DecodeFrom_succ (i := i) (sextet_digit h0 (hchar 0)) (sextet_digit h1 (hchar 1))
      (sextet_digit h2 (hchar 2)) (sextet_digit h3 (hchar 3)), Base64.join_three,
      storeDecoded_lt _ hj, storeDecoded_lt _ hj', storeDecoded_lt _ hj'',
      ofNat_eq (b := a) (by omega), ofNat_eq (b := b) (by omega), ofNat_eq (b := c) (by omega),
      hthree, ih hdrop (by omega) (by rw [length_patch]; exact hfit)]
    exact patch_patch (show decoded + j + 3 + rest.length ≤ _ by omega)

/-- Which of the last two characters are padding. -/
theorem encode_pads (bs : Bytes) (h : bs ≠ []) :
    (byteAt (Base64.encode bs) ((Base64.encode bs).length - 1) = Base64.pad ↔
        bs.length % 3 ≠ 0) ∧
      (byteAt (Base64.encode bs) ((Base64.encode bs).length - 2) = Base64.pad ↔
        bs.length % 3 = 1) := by
  induction bs using Base64.encode.induct with
  | case1 => exact absurd rfl h
  | case2 a =>
    rw [Base64.encode]
    exact ⟨by simp [byteAt], by simp [byteAt]⟩
  | case3 a b =>
    obtain ⟨_, _, ⟨h2, _⟩, _⟩ := Base64.sextets a b 0
    rw [show (0 : UInt8) >>> 6 = 0 from rfl, UInt8.or_zero] at h2
    rw [Base64.encode]
    exact ⟨by simp [byteAt], by simp [byteAt, (Base64.value_digit h2).2.1]⟩
  | case4 a b c rest ih =>
    obtain ⟨_, _, ⟨h2, _⟩, h3, _⟩ := Base64.sextets a b c
    rw [Base64.encode]
    by_cases hrest : rest = []
    · subst hrest
      exact ⟨by simp [byteAt, Base64.encode, (Base64.value_digit h3).2.1],
        by simp [byteAt, Base64.encode, (Base64.value_digit h2).2.1]⟩
    · have hlen := Base64.length_encode rest
      have hpos := List.length_pos_iff.mpr hrest
      obtain ⟨ih1, ih2⟩ := ih hrest
      have hskip (k : Nat) (hk : k ≤ 4) (w x y z : UInt8) (t : Bytes) (ht : 4 ≤ t.length) :
          byteAt (w :: x :: y :: z :: t) (t.length + 4 - k) = byteAt t (t.length - k) := by
        rw [show t.length + 4 - k = t.length - k + 4 by omega]
        rfl
      simp only [List.length_cons]
      rw [hskip 1 (by omega) _ _ _ _ _ (by omega), hskip 2 (by omega) _ _ _ _ _ (by omega), ih1, ih2]
      exact ⟨by omega, by omega⟩

theorem decodedLen_eq {bs data rest : Bytes} {start : Nat} (hne : bs ≠ [])
    (hdata : data.drop start = Base64.encode bs ++ rest) :
    decodedLen data start (Base64.encode bs).length = bs.length := by
  have hlen := Base64.length_encode bs
  have hpos := List.length_pos_iff.mpr hne
  obtain ⟨hlast, hsecond⟩ := encode_pads bs hne
  have hchar (k : Nat) (hk : 0 < k) (hk' : k ≤ 4) :
      byteAt data (start + (Base64.encode bs).length - k) =
        byteAt (Base64.encode bs) ((Base64.encode bs).length - k) := by
    rw [show start + (Base64.encode bs).length - k = start + ((Base64.encode bs).length - k) by omega,
      byteAt_of_drop hdata, byteAt_append_of_lt _ (by omega)]
  have hpad : Base64.pad = '='.toUInt8 := rfl
  rw [← hchar 1 (by omega) (by omega), hpad] at hlast
  rw [← hchar 2 (by omega) (by omega), hpad] at hsecond
  simp only [decodedLen]
  by_cases h1 : bs.length % 3 = 1
  · rw [if_pos (hsecond.mpr h1), if_pos (hlast.mpr (by omega))]
    omega
  · rw [if_neg (fun h => h1 (hsecond.mp h))]
    by_cases h0 : bs.length % 3 = 0
    · rw [if_neg (fun h => hlast.mp h h0)]
      omega
    · rw [if_pos (hlast.mpr h0)]
      omega

end WifiLemmas

open WifiLemmas

/-- The text of some bytes, when there is at least one, is decoded to these bytes and a NUL. -/
theorem strBase64Decode_eq {bs data rest buf : Bytes} {start decoded : Nat} (hne : bs ≠ [])
    (hdata : data.drop start = Base64.encode bs ++ rest)
    (hfit : decoded + bs.length + 1 ≤ buf.length) :
    strBase64Decode data start (Base64.encode bs).length buf decoded =
      ((bs.length : Int), patch buf decoded (bs ++ [0])) := by
  have hlen := Base64.length_encode bs
  have hgroups : (Base64.encode bs).length / 4 = (bs.length + 2) / 3 := by omega
  have hloop := strBase64DecodeFrom_eq bs hdata (j := 0) (Nat.zero_add _) (show decoded + bs.length ≤ buf.length by omega)
  have hend : ((decoded : Int) + (bs.length : Int)).toNat = decoded + bs.length := by omega
  rw [strBase64Decode, if_neg (by omega)]
  simp only [decodedLen_eq hne hdata, hgroups, hloop, Nat.add_zero, hend]
  exact congrArg _ (patch_patch (show decoded + bs.length + 1 ≤ _ by omega))

/-- Settings survive the codec: their text has room in the buffer that `write_cfg` asks for,
and wherever it is copied to, it is decoded to them and a NUL. -/
theorem base64_round_trip (src block data buf : Bytes) (len start decoded : Nat) (hpos : 0 < len)
    (hsrc : len ≤ src.length) (hblock : block.length = len * 4 / 3 + 4)
    (hdata : cString (data.drop start) = cString (strBase64EncodeLen src block len))
    (hbuf : decoded + len + 1 ≤ buf.length) :
    (cString (strBase64EncodeLen src block len)).length + 1 ≤ block.length ∧
      strBase64Decode data start (cString (data.drop start)).length buf decoded =
        ((len : Int), patch buf decoded (src.take len ++ [0])) := by
  have htake : (src.take len).length = len := by rw [List.length_take, Nat.min_eq_left hsrc]
  have hne : src.take len ≠ [] := fun h => by
    rw [h] at htake
    exact absurd htake (Nat.ne_of_lt hpos)
  have hroom : (len + 2) / 3 * 4 + 1 ≤ block.length := by omega
  have hcString := cString_encoded hsrc hroom
  have hlen := Base64.length_encode (src.take len)
  rw [hcString] at hdata ⊢
  refine ⟨by omega, ?_⟩
  have hsplit : data.drop start = Base64.encode (src.take len) ++
      (data.drop start).drop (Base64.encode (src.take len)).length := by
    have h := List.takeWhile_append_dropWhile (p := fun b : UInt8 => decide (b ≠ 0))
      (l := data.drop start)
    have htext : (data.drop start).takeWhile (fun b => decide (b ≠ 0)) =
        Base64.encode (src.take len) := hdata
    rw [htext] at h
    have hdrop := congrArg (List.drop (Base64.encode (src.take len)).length) h
    rw [List.drop_left' rfl] at hdrop
    rw [← hdrop, h]
  have hbuf' : decoded + (src.take len).length + 1 ≤ buf.length := by
    rw [htake]
    exact hbuf
  have h := strBase64Decode_eq hne hsplit hbuf'
  rw [htake] at h
  rw [hdata]
  exact h

/-- Two groups, the second one with a single byte. -/
theorem base64_round_trip_many :
    (cString (strBase64EncodeLen (ascii "Many") (List.replicate 9 0) 4)).length + 1 ≤ 9 ∧
      strBase64Decode (ascii "TWFueQ==" ++ [0]) 0 (cString (ascii "TWFueQ==" ++ [0])).length
        [7, 7, 7, 7, 7, 7, 7] 1 = (4, 7 :: ascii "Many" ++ [0, 7]) :=
  base64_round_trip (ascii "Many") (List.replicate 9 0) (ascii "TWFueQ==" ++ [0])
    [7, 7, 7, 7, 7, 7, 7] 4 0 1 (by decide) (by decide) (by decide) (by decide) (by decide)

end EspushW60x
