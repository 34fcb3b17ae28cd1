import EspushW60x.Platform
import EspushW60x.Lib.Framing

/-!
# `protoframe.c`: frames and the receive buffer

The functions of `protoframe.c` up to `buffer_is_full`, in the order of the
source. A `size_t` is a `Nat` below `2 ^ 32`; `sizeT` and `intOf` are the
conversions from and to `int`.

A `Buffer` carries its invariant: `len` never exceeds the size of the block.
-/

namespace EspushW60x

open Lib

universe u

/-- `MAX_FRAME_LEFT` -/
def maxFrameLeft : Nat := 2048
/-- `MAX_RECV_BUFFER_LENGTH` -/
def maxRecvBufferLength : Nat := 256
def methodLogin : UInt8 := 0x01
def methodUart : UInt8 := 0x03

/-- `int` to `size_t`. -/
def sizeT (i : Int) : Nat := (i % 0x100000000).toNat

/-- `size_t` to `int`. -/
def intOf (n : Nat) : Int :=
  if n % 0x100000000 < 0x80000000 then (n % 0x100000000 : Nat)
  else (n % 0x100000000 : Nat) - 0x100000000

theorem intOf_of_lt {n : Nat} (h : n < 0x80000000) : intOf n = n := by
  have hmod : n % 0x100000000 = n := Nat.mod_eq_of_lt (by omega)
  rw [intOf, hmod, if_pos h]

theorem sizeT_of_nonneg {i : Int} (h : 0 ≤ i) (hlt : i < 0x100000000) : sizeT i = i.toNat := by
  rw [sizeT, Int.emod_eq_of_lt h hlt]

/-! ## Frames -/

inductive DataFlag
  | static
  | dyn
deriving DecidableEq, Repr

/-- What `Frame.data` points to: nothing, static storage, or a heap block. -/
inductive Data
  | null
  | static (bytes : Bytes)
  | dyn (block : Block)
deriving DecidableEq, Repr

def Data.bytes : Data → Bytes
  | .null => []
  | .static bytes => bytes
  | .dyn block => block.bytes

/-- The size of what the pointer points to; `none` for NULL. -/
def Data.size : Data → Option Nat
  | .null => none
  | .static bytes => some bytes.length
  | .dyn block => some block.bytes.length

def Data.store (off : Nat) (bs : Bytes) : Data → Data
  | .null => .null
  | .static bytes => .static (patch bytes off bs)
  | .dyn block => .dyn (block.store off bs)

/-- `addr` is the number of the block the struct itself lives in. -/
structure Frame where
  addr : Nat
  method : UInt8
  txid : UInt8
  dataFlag : DataFlag
  data : Data
  length : Nat
deriving DecidableEq, Repr

/-- The frame as a value. -/
def Frame.message (f : Frame) : Message := ⟨f.method, f.txid, f.data.bytes.take f.length⟩

def sizeofFrame : Int := 12

def mallocEmptyFrame (e : Env) (site : Site) (method : UInt8) : Prog Mem (Option Frame) := do
  match ← espushMalloc e (.frame site) sizeofFrame with
  | none => return none
  | some rsp =>
    return some
      { addr := rsp.addr, method := method, txid := 0, dataFlag := .static, data := .null, length := 0 }

def frameLength (f : Frame) : Int := intOf (2 + 1 + 1 + f.length)

def setStaticData (f : Frame) (data : Bytes) (dLength : Nat) : Frame :=
  { f with data := .static data, length := dLength, dataFlag := .static }

def ascii (s : String) : Bytes := s.toList.map fun c => UInt8.ofNat c.toNat

/-- The login frame: its body is `imei` in a fixed JSON text. -/
def newLoginFrame (e : Env) (imei : Bytes) : Prog Mem (Option Frame) := do
  match ← mallocEmptyFrame e .session methodLogin with
  | none => return none
  | some out =>
    let bodyBuf := ascii "\x7b\"imei\":\"" ++ imei ++ ascii "\",\"method\":\"LOGIN\"\x7d"
    return some (setStaticData out bodyBuf bodyBuf.length)

def freeFrame {m : Type → Type u} [MemSteps m] (f : Frame) : m Unit := do
  match f.data, f.dataFlag with
  | .dyn block, .dyn => espushFree block.addr
  | _, _ => pure ()
  espushFree f.addr

/-- `serialize_frame(f, out, out_max_length)`, where `out` is a block of
`out_max_length` bytes. -/
def serializeFrame (f : Frame) (out : Block) : Prog Mem (Int × Block) := do
  let length := (1 + 1 + f.length) % 0x100000000
  touch .out (some out.bytes.length) 0 2
  let out := out.store 0 (be16 length)
  touch .out (some out.bytes.length) 2 1
  let out := out.store 2 [f.method]
  touch .out (some out.bytes.length) 3 1
  let out := out.store 3 [f.txid]
  touch .body f.data.size 0 f.length
  touch .out (some out.bytes.length) 4 f.length
  let out := out.store 4 (f.data.bytes.take f.length)
  return (intOf (length + 2), out)

/-- The last statements of `deserialize_frame`: the copy of the payload and the
store of the terminating NUL. -/
def storeBody (inData : Bytes) (inLength left : Nat) (out : Frame) : Prog Mem (Int × Frame) := do
  touch .input (some inLength) 4 (left - 2)
  touch .body out.data.size 0 (left - 2)
  let data := out.data.store 0 ((inData.drop 4).take (left - 2))
  touch .body out.data.size (left - 2) 1
  return (0, { out with data := data.store (left - 2) [0] })

/-- `inData` is the memory from `in_data` on; the callee may read `inLength`
bytes of it. -/
def deserializeFrame (e : Env) (site : Site) (inData : Bytes) (inLength : Nat) (out : Frame) :
    Prog Mem (Int × Frame) := do
  touch .input (some inLength) 0 2
  let left := ofBe16 inData
  -- 2 + left == frame length, +1 for null
  if inLength < 2 + left + 1 then
    return (-1, out)
  if left > maxFrameLeft then
    return (-1, out)
  touch .input (some inLength) 2 1
  touch .input (some inLength) 3 1
  let out := { out with
    method := byteAt inData 2, txid := byteAt inData 3, length := sizeT ((left : Int) - 2) }
  if out.length = 0 then
    storeBody inData inLength left { out with dataFlag := .static }
  else
    match ← espushMalloc e (.body site) ((left : Int) - 2) with
    | none => return (-1, { out with dataFlag := .dyn, data := .null })
    | some data => storeBody inData inLength left { out with dataFlag := .dyn, data := .dyn data }

def writeFrameBuf (e : Env) (f : Frame) (buf : Block) : Prog World (Int × Block) := do
  let r ← serializeFrame f buf
  if r.1 < 0 then
    return (-1, r.2)
  let rc ← send e (r.2.bytes.take r.1.toNat)
  return (rc, r.2)

def writeFrame {m : Type → Type u} [WorldSteps m] (e : Env) (f : Frame) : m Int := do
  let length := frameLength f
  if length > maxFrameLeft then
    return -1
  match ← espushMalloc e .wireBuf length with
  | none => return -1
  | some buf =>
    let r ← writeFrameBuf e f buf
    espushFree buf.addr
    return r.1

def recvFrame (e : Env) (site : Site) (f : Frame) : Prog World (Int × Frame) := do
  let head ← recv .head (some 4) 0 4
  if head.1 < 0 ∨ head.1 ≠ 4 then
    return (-1, f)
  let left := ofBe16 head.2
  -- all frame, include header. extra +1 for string NULL suffix.
  let length := left + 2 + 1
  match ← espushMalloc e .scratch length with
  | none => return (-1, f)
  | some frameBuf =>
    touch .scratch (some frameBuf.bytes.length) 0 4
    let frameBuf := frameBuf.store 0 head.2
    let body ← recv .scratch (some frameBuf.bytes.length) 4 ((left : Int) - 2)
    let frameBuf := frameBuf.store 4 body.2
    if body.1 ≠ (left : Int) - 2 then
      espushFree frameBuf.addr
      return (-1, f)
    let r ← deserializeFrame e site frameBuf.bytes length f
    if r.1 < 0 then
      espushFree frameBuf.addr
      return (-1, r.2)
    return r

/-! ## The receive buffer -/

/-- `addr` is the number of the struct, `buffer` the block of data; its size is
the `cap` of the source. -/
structure Buffer where
  addr : Nat
  buffer : Block
  len : Nat
  len_le : len ≤ buffer.bytes.length
deriving DecidableEq, Repr

def Buffer.cap (buf : Buffer) : Nat := buf.buffer.bytes.length

/-- The bytes received and not yet extracted. -/
def Buffer.contents (buf : Buffer) : Bytes := buf.buffer.bytes.take buf.len

def sizeofBuffer : Int := 12

def mallocBuffer {m : Type → Type u} [MemSteps m] (e : Env) (len : Nat) : m (Option Buffer) := do
  match ← espushMalloc e .bufferStruct sizeofBuffer with
  | none => return none
  | some out =>
    match ← espushMalloc e .bufferData len with
    | none =>
      espushFree out.addr
      return none
    | some buffer => return some ⟨out.addr, buffer, 0, Nat.zero_le _⟩

def freeBuffer {m : Type → Type u} [MemSteps m] (buf : Buffer) : m Unit := do
  espushFree buf.buffer.addr
  espushFree buf.addr

/-- The buffer after `bs` was copied behind its contents. -/
def Buffer.append (buf : Buffer) (bs : Bytes) (h : (buf.len + bs.length) % 0x100000000 ≤ buf.cap) :
    Buffer where
  addr := buf.addr
  buffer := buf.buffer.store buf.len bs
  len := (buf.len + bs.length) % 0x100000000
  len_le := by rw [Block.bytes_store, length_patch]; exact h

def bufferAddData (buf : Buffer) (bs : Bytes) : Prog Mem (Int × Buffer) :=
  if h : (buf.len + bs.length) % 0x100000000 > buf.cap then
    return (-1, buf)
  else do
    touch .bufferData (some buf.cap) buf.len bs.length
    let buf := buf.append bs (Nat.le_of_not_gt h)
    return (intOf buf.len, buf)

def bufferTryExtract (buf : Buffer) : Prog Mem Int := do
  if buf.len < 4 then
    return 0
  touch .bufferData (some buf.cap) 0 2
  let left := ofBe16 buf.buffer.bytes
  if buf.len ≥ left + 2 then
    return left + 2
  return 0

/-- The buffer after its first `len` bytes were moved out and a NUL was stored
behind the rest. -/
def Buffer.shrink (buf : Buffer) (len : Nat) : Buffer where
  addr := buf.addr
  buffer := (buf.buffer.store 0 ((buf.buffer.bytes.drop len).take (buf.len - len))).store
    (buf.len - len) [0]
  len := buf.len - len
  len_le := by
    rw [Block.bytes_store, length_patch, Block.bytes_store, length_patch]
    exact Nat.le_trans (Nat.sub_le _ _) buf.len_le

def bufferShrink (buf : Buffer) (len : Nat) : Prog Mem Buffer := do
  let w := buf.len - len
  touch .bufferData (some buf.cap) len w
  touch .bufferData (some buf.cap) 0 w
  touch .bufferData (some buf.cap) w 1
  return buf.shrink len

def bufferIsFull (buf : Buffer) : Bool := (buf.len + 4) % 0x100000000 ≥ buf.cap

end EspushW60x
