import EspushW60x.Protoframe
import EspushW60x.Lib.Hex

/-!
# `utils.c`: the hex codec

`bin2hex` writes a byte string as hexadecimal text, `hexs2bin` reads such a text
back. Memory from a pointer on is a list of bytes, and `none` is NULL. An index
never wraps around, since the text lies in the address space.

Results:
* `bin2hex_stores`: `bin2hex` stores the text of the bytes and a NUL;
* `hexs2bin_result`: `hexs2bin` reads the string back when it can be read;
* `hex_codec_round_trip`: the round trip in both directions.
-/

namespace EspushW60x

open Lib

/-! ## `utils.c` -/

def hexAlphabet : Bytes := ascii "0123456789ABCDEF"

/-- The loop of `bin2hex` from byte `i` on, over the bytes left. -/
def bin2hexFrom : Bytes → Nat → Bytes → Bytes
  | [], _, out => out
  | b :: rest, i, out =>
    let out := patch out (i * 2) [byteAt hexAlphabet (b >>> 4).toNat]
    let out := patch out (i * 2 + 1) [byteAt hexAlphabet (b &&& 0x0F).toNat]
    bin2hexFrom rest (i + 1) out

def bin2hex (bin : Option Bytes) (len : Nat) (out : Bytes) : Bytes :=
  match bin with
  | none => out
  | some bin =>
    if len = 0 then out
    else patch (bin2hexFrom (bin.take len) 0 out) (len * 2) [0]

/-- The byte that is stored in `*out`; `none` when the function returns 0. A byte
from 128 on is no digit, whether `char` is signed or not. -/
def hexchr2bin (hex : UInt8) : Option UInt8 :=
  if hex ≥ '0'.toUInt8 ∧ hex ≤ '9'.toUInt8 then some (hex - '0'.toUInt8)
  else if hex ≥ 'A'.toUInt8 ∧ hex ≤ 'F'.toUInt8 then some (hex - 'A'.toUInt8 + 10)
  else if hex ≥ 'a'.toUInt8 ∧ hex ≤ 'f'.toUInt8 then some (hex - 'a'.toUInt8 + 10)
  else none

/-- The loop of `hexs2bin` from byte `i` on, with `n` bytes left. The flag is false
when it returned early. -/
def hexs2binFrom (hex : Bytes) : Nat → Nat → Bytes → Bool × Bytes
  | 0, _, out => (true, out)
  | n + 1, i, out =>
    match hexchr2bin (byteAt hex (i * 2)), hexchr2bin (byteAt hex (i * 2 + 1)) with
    | some b1, some b2 => hexs2binFrom hex n (i + 1) (patch out i [b1 <<< 4 ||| b2])
    | _, _ => (false, out)

/-- The value returned, and the memory from `out` on. -/
def hexs2bin (hex out : Option Bytes) : Nat × Option Bytes :=
  match hex, out with
  | some hex, some out =>
    if byteAt hex 0 = 0 then (0, some out)
    else
      let len := (cString hex).length
      if len % 2 ≠ 0 then (0, some out)
      else
        let len := len / 2
        let out := patch out 0 (List.replicate len 'A'.toUInt8)
        let r := hexs2binFrom hex len 0 out
        (if r.1 then len else 0, some r.2)
  | _, _ => (0, out)

/-! ## Writing -/

namespace HexCodecLemmas

theorem byteAt_hexAlphabet : ∀ n : UInt8, n < 16 → byteAt hexAlphabet n.toNat = Hex.digit n :=
  Hex.forall_uint8 (by decide +kernel)

theorem halves_lt : ∀ b : UInt8, b >>> 4 < 16 ∧ b &&& 0x0F < 16 :=
  Hex.forall_uint8 (by decide +kernel)

/-- The loop stores the text of the bytes left. -/
theorem bin2hexFrom_eq {bs out : Bytes} {i : Nat} (h : i * 2 + 2 * bs.length ≤ out.length) :
    bin2hexFrom bs i out = patch out (i * 2) (Hex.encode bs) := by
  induction bs generalizing i out with
  | nil => rw [bin2hexFrom, Hex.encode_nil, patch_eq h, List.append_nil]; simp
  | cons b rest ih =>
    rw [List.length_cons] at h
    obtain ⟨hhigh, hlow⟩ := halves_lt b
    have htwo : i * 2 + [Hex.digit (b >>> 4)].length + [Hex.digit (b &&& 0x0F)].length ≤
        out.length := by
      simp only [List.length_singleton]
      omega
    have hpair : patch (patch out (i * 2) [Hex.digit (b >>> 4)]) (i * 2 + 1)
        [Hex.digit (b &&& 0x0F)] = patch out (i * 2) (Hex.pair b) := patch_patch htwo
    have hfit : i * 2 + (Hex.pair b).length + (Hex.encode rest).length ≤ out.length := by
      rw [Hex.length_encode]
      show i * 2 + 2 + _ ≤ _
      omega
    have hrest : patch (patch out (i * 2) (Hex.pair b)) (i * 2 + 2) (Hex.encode rest) =
        patch out (i * 2) (Hex.pair b ++ Hex.encode rest) := patch_patch hfit
    simp only [bin2hexFrom, byteAt_hexAlphabet _ hhigh, byteAt_hexAlphabet _ hlow, hpair]
    rw [ih (by rw [length_patch]; omega), Nat.succ_mul, hrest, Hex.encode_cons]

end HexCodecLemmas

open HexCodecLemmas

/-- `bin2hex` stores the text of the bytes and a NUL. -/
theorem bin2hex_stores {bin text : Bytes} {len : Nat} (hlen : len ≠ 0) (hbin : len ≤ bin.length)
    (h : 2 * len + 1 ≤ text.length) :
    bin2hex (some bin) len text = patch text 0 (Hex.encode (bin.take len) ++ [0]) := by
  have htake : (bin.take len).length = len := by rw [List.length_take, Nat.min_eq_left hbin]
  have henc : (Hex.encode (bin.take len)).length = 2 * len := by rw [Hex.length_encode, htake]
  have hnul : patch (patch text 0 (Hex.encode (bin.take len)))
      (0 + (Hex.encode (bin.take len)).length) [0] =
      patch text 0 (Hex.encode (bin.take len) ++ [0]) :=
    patch_patch (by rw [henc, Nat.zero_add]; exact h)
  rw [Nat.zero_add, henc, Nat.mul_comm] at hnul
  simp only [bin2hex, if_neg hlen]
  rw [bin2hexFrom_eq (by rw [htake]; omega), Nat.zero_mul, hnul]

namespace HexCodecLemmas

/-- The string that `bin2hex` wrote. -/
theorem cString_bin2hex {bin text : Bytes} {len : Nat} (hlen : len ≠ 0) (hbin : len ≤ bin.length)
    (h : 2 * len + 1 ≤ text.length) :
    cString (bin2hex (some bin) len text) = Hex.encode (bin.take len) := by
  have hstored : (Hex.encode (bin.take len) ++ [0]).length = 2 * len + 1 := by
    rw [List.length_append, Hex.length_encode, List.length_take, Nat.min_eq_left hbin]
    rfl
  rw [bin2hex_stores hlen hbin h, patch_eq (by rw [hstored]; omega), List.take_zero,
    List.nil_append, List.append_assoc, List.singleton_append]
  exact cString_append (Hex.encode_ne_zero _) _

/-! ## Reading -/

theorem hexchr2bin_eq : ∀ c, hexchr2bin c = Hex.value c :=
  Hex.forall_uint8 (by decide +kernel)

/-- The part of the text that the loop has to read. -/
def textFrom (hex : Bytes) (i n : Nat) : Bytes := (hex.drop (i * 2)).take (n * 2)

theorem textFrom_succ {hex : Bytes} {i n : Nat} (h : i * 2 + 2 ≤ hex.length) :
    textFrom hex i (n + 1) =
      byteAt hex (i * 2) :: byteAt hex (i * 2 + 1) :: textFrom hex (i + 1) n := by
  have hdrop : hex.drop (i * 2) =
      byteAt hex (i * 2) :: byteAt hex (i * 2 + 1) :: hex.drop ((i + 1) * 2) := by
    rw [List.drop_eq_getElem_cons (by omega), List.drop_eq_getElem_cons (by omega), Nat.succ_mul]
    simp [byteAt, show i * 2 < hex.length by omega, show i * 2 + 1 < hex.length by omega]
  rw [textFrom, hdrop, Nat.succ_mul]
  rfl

/-- The loop reads the text to its end when it can be read, and stores no byte but
those it was asked for. -/
theorem hexs2binFrom_result {hex : Bytes} (n : Nat) {i : Nat} (out : Bytes)
    (h : i * 2 + n * 2 ≤ hex.length) :
    (hexs2binFrom hex n i out).1 = (Hex.decode (textFrom hex i n)).isSome ∧
      (∀ bs ∈ Hex.decode (textFrom hex i n), i + n ≤ out.length →
        (hexs2binFrom hex n i out).2 = patch out i bs) ∧
      (hexs2binFrom hex n i out).2.length = out.length ∧
      (hexs2binFrom hex n i out).2.drop (i + n) = out.drop (i + n) := by
  induction n generalizing i out with
  | zero =>
    have hnil : textFrom hex i 0 = [] := by rw [textFrom, Nat.zero_mul, List.take_zero]
    rw [hnil]
    refine ⟨rfl, ?_, rfl, rfl⟩
    intro bs hbs hfit
    cases hbs
    rw [patch_eq hfit]
    simp [hexs2binFrom]
  | succ n ih =>
    rw [textFrom_succ (by omega)]
    simp only [hexs2binFrom, hexchr2bin_eq]
    cases hx : Hex.value (byteAt hex (i * 2)) with
    | none => simp [Hex.decode, hx]
    | some x =>
      cases hy : Hex.value (byteAt hex (i * 2 + 1)) with
      | none => simp [Hex.decode, hx, hy]
      | some y =>
        obtain ⟨hread, hstore, hlen, hdrop⟩ :=
          ih (i := i + 1) (patch out i [x <<< 4 ||| y]) (by omega)
        have hsucc : i + (n + 1) = i + 1 + n := by omega
        refine ⟨?_, ?_, ?_, ?_⟩
        · rw [hread]
          cases hd : Hex.decode (textFrom hex (i + 1) n) <;> simp [Hex.decode, hx, hy, hd]
        · intro bs hbs hfit
          obtain ⟨x', hx', y', hy', bs', hbs', rfl⟩ := Hex.decode_cons_cons.mp hbs
          rw [hx] at hx'
          rw [hy] at hy'
          cases hx'
          cases hy'
          have hbytes : bs'.length = n := by
            have := Hex.length_of_decode hbs'
            rw [textFrom, List.length_take, List.length_drop] at this
            omega
          have hall : i + [x <<< 4 ||| y].length + bs'.length ≤ out.length := by
            rw [hbytes]
            show i + 1 + n ≤ _
            omega
          rw [hstore bs' hbs' (by rw [length_patch]; omega)]
          exact patch_patch hall
        · rw [hlen, length_patch]
        · have hfront : i + [x <<< 4 ||| y].length ≤ i + 1 + n := Nat.le_add_right (i + 1) n
          rw [hsucc, hdrop]
          exact drop_patch out hfront

theorem cString_eq_take (hex : Bytes) : cString hex = hex.take (cString hex).length :=
  List.prefix_iff_eq_take.mp (List.takeWhile_prefix _)

theorem length_cString_le (hex : Bytes) : (cString hex).length ≤ hex.length :=
  (List.takeWhile_prefix _).length_le

theorem byteAt_zero_iff (hex : Bytes) : byteAt hex 0 = 0 ↔ cString hex = [] := by
  cases hex with
  | nil => exact iff_of_true rfl rfl
  | cons c rest =>
    show c = 0 ↔ _
    simp [cString, List.takeWhile_cons]

end HexCodecLemmas

/-- `hexs2bin` returns the number of bytes that it read from the string, or 0 when
the string is empty or cannot be read. -/
theorem hexs2bin_result (hex out : Bytes) :
    (∀ bs ∈ Hex.decode (cString hex), (hexs2bin (some hex) (some out)).1 = bs.length ∧
      (bs.length ≤ out.length →
        (hexs2bin (some hex) (some out)).2 = some (bs ++ out.drop bs.length))) ∧
      (Hex.decode (cString hex) = none → (hexs2bin (some hex) (some out)).1 = 0) ∧
      ∃ out', (hexs2bin (some hex) (some out)).2 = some out' ∧ out'.length = out.length ∧
        out'.drop ((cString hex).length / 2) = out.drop ((cString hex).length / 2) := by
  by_cases hempty : cString hex = []
  · have hrun : hexs2bin (some hex) (some out) = (0, some out) := by
      simp only [hexs2bin, if_pos ((byteAt_zero_iff hex).mpr hempty)]
    rw [hrun, hempty]
    refine ⟨?_, fun _ => rfl, out, rfl, rfl, rfl⟩
    intro bs hbs
    cases hbs
    exact ⟨rfl, fun _ => rfl⟩
  have hzero := mt (byteAt_zero_iff hex).mp hempty
  by_cases hodd : (cString hex).length % 2 ≠ 0
  · have hrun : hexs2bin (some hex) (some out) = (0, some out) := by
      simp only [hexs2bin, if_neg hzero, if_pos hodd]
    rw [hrun]
    refine ⟨?_, fun _ => rfl, out, rfl, rfl, rfl⟩
    intro bs hbs
    have := Hex.length_of_decode hbs
    omega
  have heven : (cString hex).length / 2 * 2 = (cString hex).length := by omega
  have hin := length_cString_le hex
  have htext : textFrom hex 0 ((cString hex).length / 2) = cString hex := by
    rw [textFrom, heven, Nat.zero_mul, List.drop_zero]
    exact (cString_eq_take hex).symm
  have hbound : 0 * 2 + (cString hex).length / 2 * 2 ≤ hex.length := by omega
  obtain ⟨hread, hstore, hlen, hdrop⟩ := hexs2binFrom_result ((cString hex).length / 2)
    (patch out 0 (List.replicate ((cString hex).length / 2) 'A'.toUInt8)) hbound
  have hrun : hexs2bin (some hex) (some out) =
      (if (Hex.decode (cString hex)).isSome then (cString hex).length / 2 else 0,
        some (hexs2binFrom hex ((cString hex).length / 2) 0
          (patch out 0 (List.replicate ((cString hex).length / 2) 'A'.toUInt8))).2) := by
    rw [htext] at hread
    simp only [hexs2bin, if_neg hzero, if_neg hodd, hread]
  rw [htext, Nat.zero_add] at hstore
  rw [Nat.zero_add] at hdrop
  have hmemset : 0 + (List.replicate ((cString hex).length / 2) 'A'.toUInt8).length ≤
      (cString hex).length / 2 := by
    rw [List.length_replicate]
    omega
  rw [hrun]
  refine ⟨?_, ?_, _, rfl, by rw [hlen, length_patch], by rw [hdrop, drop_patch out hmemset]⟩
  · intro bs hbs
    have hsome : Hex.decode (cString hex) = some bs := hbs
    have hbytes := Hex.length_of_decode hbs
    have hhalf : (cString hex).length / 2 = bs.length := by omega
    refine ⟨by rw [hsome]; exact hhalf, fun hfit => ?_⟩
    rw [hstore bs hbs (by rw [length_patch]; omega),
      patch_eq (by rw [length_patch]; omega), List.take_zero, List.nil_append, Nat.zero_add,
      drop_patch out (by omega)]
  · intro hnone
    rw [hnone]
    rfl

/-! ## The round trip -/

/-- What `bin2hex` writes for some bytes is read back by `hexs2bin`. Conversely
`hexs2bin` reads exactly the non-empty strings of digits of even length; the bytes
it stores are written by `bin2hex` as the same string in upper case. It stores no
byte behind those that the length of the string asks for. -/
theorem hex_codec_round_trip :
    (∀ b text out : Bytes, b ≠ [] → 2 * b.length + 1 ≤ text.length → b.length ≤ out.length →
      hexs2bin (some (bin2hex (some b) b.length text)) (some out) =
        (b.length, some (b ++ out.drop b.length))) ∧
    (∀ hex out : Bytes,
      let s := cString hex
      let r := hexs2bin (some hex) (some out)
      (r.1 ≠ 0 ↔ s ≠ [] ∧ s.length % 2 = 0 ∧ ∀ c ∈ s, Hex.IsDigit c) ∧
      (r.1 ≠ 0 → r.1 = s.length / 2 ∧
        ∀ text : Bytes, s.length / 2 ≤ out.length → s.length + 1 ≤ text.length →
          cString (bin2hex r.2 r.1 text) = s.map Hex.upper) ∧
      ∃ out', r.2 = some out' ∧ out'.length = out.length ∧
        out'.drop (s.length / 2) = out.drop (s.length / 2)) := by
  constructor
  · intro b text out hb htext hout
    have hlen : b.length ≠ 0 := mt List.length_eq_zero_iff.mp hb
    have hstring := cString_bin2hex hlen (Nat.le_refl _) htext
    rw [List.take_length] at hstring
    obtain ⟨hread, hstore⟩ := (hexs2bin_result (bin2hex (some b) b.length text) out).1 b
      (by rw [hstring]; exact Hex.decode_encode b)
    exact Prod.ext hread (hstore hout)
  · intro hex out s r
    obtain ⟨hread, hfail, hframe⟩ := hexs2bin_result hex out
    have hiff := Hex.decode_isSome_iff s
    cases hd : Hex.decode s with
    | none =>
      have hzero : r.1 = 0 := hfail hd
      rw [hd] at hiff
      refine ⟨iff_of_false (fun h => h hzero) ?_, fun h => absurd hzero h, hframe⟩
      exact fun h => absurd (hiff.mpr h.2) Bool.false_ne_true
    | some bs =>
      obtain ⟨hrc, hstore⟩ := hread bs hd
      have hrc : r.1 = bs.length := hrc
      have hbytes := Hex.length_of_decode hd
      have hnil : s ≠ [] ↔ bs.length ≠ 0 := by
        rw [Ne, ← List.length_eq_zero_iff]
        omega
      rw [hd] at hiff
      refine ⟨?_, ?_, hframe⟩
      · rw [hrc, hnil]
        exact (and_iff_left (hiff.mp rfl)).symm
      · intro hne
        refine ⟨by omega, fun text hfit htext => ?_⟩
        have hmem : r.2 = some (bs ++ out.drop bs.length) := hstore (by omega)
        rw [hrc] at hne ⊢
        rw [hmem, cString_bin2hex hne (by rw [List.length_append]; omega) (by omega),
          List.take_left' rfl]
        exact Hex.encode_of_decode hd

/-- The string `0aF` cannot be read, and `0aFf` is two bytes. -/
theorem hex_codec_round_trip_bytes :
    hexs2bin (some (bin2hex (some [0x0A, 0xFF]) 2 [1, 1, 1, 1, 1, 1])) (some [7, 7, 7]) =
        (2, some [0x0A, 0xFF, 7]) ∧
      (hexs2bin (some (ascii "0aF" ++ [0])) (some [7, 7])).1 = 0 ∧
      (hexs2bin (some (ascii "0aFf" ++ [0])) (some [7, 7])).1 = 2 := by
  have h := hex_codec_round_trip
  refine ⟨h.1 [0x0A, 0xFF] _ _ (by decide) (by decide) (by decide), ?_, ?_⟩
  · exact Decidable.byContradiction fun hne => absurd ((h.2 _ _).1.mp hne) (by decide +kernel)
  · exact ((h.2 (ascii "0aFf" ++ [0]) [7, 7]).2.1 (by decide +kernel)).1

end EspushW60x
