import EspushW60x.Lib.Prog
import EspushW60x.Lib.Ledger
import EspushW60x.Lib.Bytes

/-!
# The platform under the firmware

What the C code takes from RT-Thread, the socket layer and the GPIO driver, as
operations on an explicit state.

* `Env` has every answer that comes from outside the program: which requests
  the allocator grants, what `send` returns, what indeterminate memory holds.
  Each answer is indexed by the number of the request, so one `Env` is one
  pattern of outcomes, and a statement over all `Env` covers all patterns.
* `Mem` is the ledger of live resources and the log of memory accesses. The log
  is written by every copy, every indexed read and store and every `recv`; it
  does not stop a program that goes out of bounds.
* `World` adds the socket, the pipe of the heart timer, the GPIO pins and the
  list of frames handed to `handle_frame`.
* `MemSteps` and `WorldSteps` are the monads that the functions of a session are
  defined in: as one program, or as the steps of a thread.
-/

namespace EspushW60x

open Lib

/-- Bytes in memory or on the wire. -/
abbrev Bytes := List UInt8

/-- The bytes of a string up to its NUL. -/
def cString (s : Bytes) : Bytes := s.takeWhile fun b => b ≠ 0

theorem cString_append {s : Bytes} (h : ∀ c ∈ s, c ≠ 0) (rest : Bytes) :
    cString (s ++ 0 :: rest) = s := by
  induction s with
  | nil => rfl
  | cons c s ih =>
    have hc : c ≠ 0 := h c List.mem_cons_self
    have hs := ih fun d hd => h d (List.mem_cons_of_mem _ hd)
    rw [cString] at hs ⊢
    rw [List.cons_append, List.takeWhile_cons_of_pos (by simpa using hc), hs]

/-! ## Resources -/

/-- On whose behalf a frame is allocated: while a session is set up (the login
frame and its response), or for a message handled by the event loop. The code
uses one allocator for both; the ledger keeps them apart. -/
inductive Site
  | session
  | message
deriving DecidableEq, Repr

/-- What an entry of the ledger is. -/
inductive Kind
  | frame (site : Site)
  | body (site : Site)
  | scratch
  | wireBuf
  | bufferStruct
  | bufferData
  | recvResource
  | connState
  | mutex
  | pipe
  | readFd
  | writeFd
  | timer
  | socket
  | replyText
  | jsonTree
deriving DecidableEq, Repr

/-- The chip the firmware is built for (`SOC_W600_A8xx`, `SOC_W601_A8xx`). -/
inductive Soc
  | w600
  | w601
deriving DecidableEq, Repr

/-- Everything that comes from outside the program. -/
structure Env where
  soc : Soc
  /-- Is the `n`-th request, for `size` bytes, granted? -/
  grant : Nat → Kind → Int → Bool
  /-- A request whose size went negative fails. -/
  grant_neg : ∀ n k size, size < 0 → grant n k size = false
  /-- The content of the block of the `n`-th request before it is written. -/
  junk : Nat → Nat → UInt8
  /-- What the `n`-th `send` returns when it is asked to send `len` bytes. -/
  sendRc : Nat → Nat → Int
  /-- The indeterminate content of `handle_frame`'s local `rc` in its `n`-th call. -/
  stale : Nat → Int
  /-- What a read through a NULL pointer finds. -/
  nullByte : UInt8
  /-- The word in front of `gl_lines` in memory, read as a pin number. -/
  strayPin : Nat

/-- Every request is granted and every `send` sends everything. -/
def Env.benign : Env where
  soc := .w600
  grant := fun _ _ size => 0 ≤ size
  grant_neg := fun _ _ _ h => decide_eq_false (Int.not_le.mpr h)
  junk := fun _ _ => 0
  sendRc := fun _ len => len
  stale := fun _ => 0
  nullByte := 0
  strayPin := 0

theorem Env.nonneg_of_grant {e : Env} {n : Nat} {k : Kind} {size : Int}
    (h : e.grant n k size = true) : 0 ≤ size := by
  refine Int.not_lt.mp fun hneg => ?_
  rw [e.grant_neg n k size hneg] at h
  cases h

/-- Every request that has a size is granted. -/
def Env.GrantsAll (e : Env) : Prop := ∀ n k size, 0 ≤ size → e.grant n k size = true

/-- Every `send` sends all it is asked to. -/
def Env.SendsAll (e : Env) : Prop := ∀ n len, e.sendRc n len = len

theorem Env.grantsAll_benign : Env.benign.GrantsAll := fun _ _ _ h => decide_eq_true h

theorem Env.sendsAll_benign : Env.benign.SendsAll := fun _ _ => rfl

/-! ## Memory -/

/-- What a memory access goes to. -/
inductive Region
  | input
  | head
  | scratch
  | body
  | bufferData
  | out
  | rcvBuf
  | host
  | hostString
  | glLines
deriving DecidableEq, Repr

/-- One access of `length` bytes (elements, for an array) from `offset` on. The
region has `size` bytes; `none` stands for a NULL pointer. -/
structure Access where
  region : Region
  size : Option Nat
  offset : Int
  length : Int
deriving DecidableEq, Repr

/-- The access has a non-negative length, and it is empty or inside its region. -/
def Access.InBounds (a : Access) : Prop :=
  0 ≤ a.length ∧ (a.length = 0 ∨ 0 ≤ a.offset ∧ a.offset + a.length ≤ (a.size.getD 0 : Nat))

instance (a : Access) : Decidable a.InBounds :=
  inferInstanceAs (Decidable (_ ∧ (_ ∨ _ ∧ _)))

theorem Access.inBounds_of_le {r : Region} {n : Nat} {off len : Int} (hoff : 0 ≤ off)
    (hlen : 0 ≤ len) (h : off + len ≤ n) : (⟨r, some n, off, len⟩ : Access).InBounds :=
  ⟨hlen, .inr ⟨hoff, h⟩⟩

/-- A block of the heap. -/
structure Block where
  addr : Nat
  bytes : Bytes
deriving DecidableEq, Repr

/-- The block after `bs` was stored at `off`. -/
def Block.store (b : Block) (off : Nat) (bs : Bytes) : Block :=
  { b with bytes := patch b.bytes off bs }

@[simp] theorem Block.addr_store (b : Block) (off : Nat) (bs : Bytes) :
    (b.store off bs).addr = b.addr := by rfl

@[simp] theorem Block.bytes_store (b : Block) (off : Nat) (bs : Bytes) :
    (b.store off bs).bytes = patch b.bytes off bs := by rfl

/-- A store that fills the whole block. -/
theorem Block.store_full {b : Block} {bs : Bytes} (h : bs.length = b.bytes.length) :
    b.store 0 bs = ⟨b.addr, bs⟩ := by
  rw [Block.store, patch_eq_append (by rw [Nat.zero_add, h])]
  rfl

/-- A store past the end of the block does not change it. -/
theorem Block.store_past {b : Block} {off : Nat} (bs : Bytes) (h : b.bytes.length ≤ off) :
    b.store off bs = b := by
  rw [Block.store, patch_of_length_le bs h]

/-- The heap ledger and the log of accesses, newest first. -/
structure Mem where
  heap : Ledger Kind
  log : List Access

/-- Nothing live and nothing logged. -/
def Mem.empty : Mem := ⟨.empty, []⟩

/-- Log an access. -/
def touch (region : Region) (size : Option Nat) (offset length : Int) : Prog Mem Unit :=
  Prog.modify fun m => { m with log := ⟨region, size, offset, length⟩ :: m.log }

@[simp] theorem run_touch (r : Region) (size : Option Nat) (offset length : Int) (m : Mem) :
    (touch r size offset length).run m =
      ((), { m with log := ⟨r, size, offset, length⟩ :: m.log }) := by rfl

/-- Everything accessed between `m` and the later `m'` lies inside its region. -/
def Mem.AccessesInside (m m' : Mem) : Prop :=
  ∃ new, m'.log = new ++ m.log ∧ ∀ a ∈ new, a.InBounds

theorem Mem.accessesInside_iff {m m' : Mem} {new : List Access} (h : m'.log = new ++ m.log) :
    m.AccessesInside m' ↔ ∀ a ∈ new, a.InBounds := by
  constructor
  · rintro ⟨new', hlog, hin⟩
    rw [h] at hlog
    rwa [List.append_cancel_right hlog]
  · exact fun hin => ⟨new, h, hin⟩

/-- The block of the `n`-th request, before it is written. -/
def freshBlock (e : Env) (n : Nat) (size : Int) : Block :=
  ⟨n, (List.range size.toNat).map (e.junk n)⟩

@[simp] theorem addr_freshBlock (e : Env) (n : Nat) (size : Int) :
    (freshBlock e n size).addr = n := by rfl

@[simp] theorem length_freshBlock (e : Env) (n : Nat) (size : Int) :
    (freshBlock e n size).bytes.length = size.toNat := by
  simp [freshBlock]

/-- `rt_malloc`: a fresh block with indeterminate content, or NULL. -/
def espushMalloc (e : Env) (k : Kind) (size : Int) : Prog Mem (Option Block) := fun m =>
  if e.grant m.heap.next k size then
    (some (freshBlock e m.heap.next size), { m with heap := m.heap.acquire k })
  else (none, { m with heap := m.heap.refuse })

/-- `rt_free`. -/
def espushFree (addr : Nat) : Prog Mem Unit :=
  Prog.modify fun m => { m with heap := m.heap.release addr }

theorem run_espushMalloc (e : Env) (k : Kind) (size : Int) (m : Mem) :
    (espushMalloc e k size).run m =
      if e.grant m.heap.next k size then
        (some (freshBlock e m.heap.next size), { m with heap := m.heap.acquire k })
      else (none, { m with heap := m.heap.refuse }) := by rfl

@[simp] theorem run_espushFree (addr : Nat) (m : Mem) :
    (espushFree addr).run m = ((), { m with heap := m.heap.release addr }) := by rfl

/-! ## The world -/

/-- What one `recv` finds on the socket: bytes that arrived together, or an error
with its (negative) return code `-(n + 1)`. -/
inductive Delivery
  | segment (bs : Bytes)
  | error (n : Nat)
deriving DecidableEq, Repr

/-- What `select` reports: a timeout, an error, or which of the two descriptors
are readable. -/
inductive SelectEvent
  | timeout
  | error
  | ready (sock pipe : Bool)
deriving DecidableEq, Repr

/-- The level of a pin: `PIN_LOW` is 0, `PIN_HIGH` is 1. -/
inductive PinLevel
  | low
  | high
deriving DecidableEq, Repr

/-- The number that `rt_pin_read` returns for a level. -/
def PinLevel.toInt : PinLevel → Int
  | .low => 0
  | .high => 1

inductive PinMode
  | input
  | output
deriving DecidableEq, Repr

structure Pin where
  mode : PinMode
  level : PinLevel
deriving DecidableEq, Repr

/-- A frame as a value: what `handle_frame` is called on. -/
structure Message where
  method : UInt8
  txid : UInt8
  payload : Bytes
deriving DecidableEq, Repr

structure World where
  mem : Mem
  /-- What the next calls of `recv` find; the connection is closed after it. -/
  inbox : List Delivery
  /-- The number of calls of `send` so far. -/
  sends : Nat
  /-- The bytes sent on the socket so far. -/
  wire : Bytes
  /-- The bytes queued in the pipe. -/
  pipe : Bytes
  pins : Nat → Pin
  /-- The frames handed to `handle_frame` so far. -/
  handled : List Message

/-- Nothing received or sent yet; the pins are low and the frames in `inbox` are to come. -/
def World.start (inbox : List Delivery) : World :=
  ⟨.empty, inbox, 0, [], [], fun _ => ⟨.input, .low⟩, []⟩

/-! ## Steps -/

universe u

/-- A monad with the programs over the memory as its steps: these programs themselves, or
the threads that make a step of each. A function is defined once for all of them. -/
class MemSteps (m : Type → Type u) extends Monad m where
  mem {α : Type} : Prog Mem α → m α

/-- The programs over the world are steps, too. -/
class WorldSteps (m : Type → Type u) extends MemSteps m where
  world {α : Type} : Prog World α → m α

instance {m : Type → Type u} [WorldSteps m] : MonadLift (Prog World) m where
  monadLift := WorldSteps.world

instance {m : Type → Type u} [MemSteps m] : MonadLift (Prog Mem) m where
  monadLift := MemSteps.mem

@[default_instance] instance : MemSteps (Prog Mem) where
  mem x := x

@[default_instance] instance : WorldSteps (Prog World) where
  mem := Prog.zoom World.mem fun m w => { w with mem := m }
  world x := x

section

variable {α : Type}

@[simp] theorem run_liftMem (x : Prog Mem α) (w : World) :
    (liftM x : Prog World α).run w = ((x.run w.mem).1, { w with mem := (x.run w.mem).2 }) := by
  rfl

@[simp] theorem lift_mem (x : Prog Mem α) : (liftM x : Prog Mem α) = x := by
  rfl

@[simp] theorem lift_world (x : Prog World α) : (liftM x : Prog World α) = x := by
  rfl

end

/-! ## The socket -/

/-- The part of `recv` that does not look at memory: the return code, the bytes,
and what is left to receive. At most `len` bytes are taken; a negative `len` is
a huge `size_t`. -/
def nextDelivery (len : Int) : List Delivery → Int × Bytes × List Delivery
  | [] => (0, [], [])
  | .error n :: rest => (-(n + 1), [], rest)
  | .segment bs :: rest =>
    let got := if len < 0 then bs else bs.take len.toNat
    let left := bs.drop got.length
    (got.length, got, if left = [] then rest else .segment left :: rest)

/-- `recv(fd, p, len, 0)` into the region at `offset`. -/
def recv (region : Region) (size : Option Nat) (offset len : Int) : Prog World (Int × Bytes) := do
  touch region size offset len
  fun w =>
    let d := nextDelivery len w.inbox
    ((d.1, d.2.1), { w with inbox := d.2.2 })

@[simp] theorem run_recv (r : Region) (size : Option Nat) (offset len : Int) (w : World) :
    (recv r size offset len).run w =
      (((nextDelivery len w.inbox).1, (nextDelivery len w.inbox).2.1),
        { w with
          mem := { w.mem with log := ⟨r, size, offset, len⟩ :: w.mem.log }
          inbox := (nextDelivery len w.inbox).2.2 }) := by rfl

/-- `send(fd, bs, len, 0)`: the first `rc` bytes reach the wire. -/
def send (e : Env) (bs : Bytes) : Prog World Int := fun w =>
  let rc := e.sendRc w.sends bs.length
  (rc, { w with sends := w.sends + 1, wire := w.wire ++ bs.take rc.toNat })

@[simp] theorem run_send (e : Env) (bs : Bytes) (w : World) :
    (send e bs).run w =
      (e.sendRc w.sends bs.length,
        { w with
          sends := w.sends + 1
          wire := w.wire ++ bs.take (e.sendRc w.sends bs.length).toNat }) := by rfl

/-! ## Pins -/

def rtPinMode (pin : Nat) (mode : PinMode) : Prog World Unit :=
  Prog.modify fun w =>
    { w with pins := fun p => if p = pin then { w.pins pin with mode := mode } else w.pins p }

def rtPinWrite (pin : Nat) (level : PinLevel) : Prog World Unit :=
  Prog.modify fun w =>
    { w with pins := fun p => if p = pin then { w.pins pin with level := level } else w.pins p }

/-- `rt_pin_read`: the last level written. -/
def rtPinRead (pin : Nat) : Prog World Int := Prog.read fun w => (w.pins pin).level.toInt

end EspushW60x
