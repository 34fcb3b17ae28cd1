import EspushW60x.Bootstrap
import EspushW60x.EventLoop

/-!
# A session: from `bootstrap` to the end of the select loop

The functions of `espush.c`, `select.c` and `protoframe.c` that set a connection
up, run its select loop and tear it down. `sockTask` is one session; it returns
the return code of `sock_task` and the connection as it leaves it. `espushTask` is
the thread of `app.c` that starts one session after the other.

The select loop is a recursion over the events that come from outside; after the
last one `select` fails, so every list of events is one run that ends.
-/

namespace EspushW60x

open Lib

universe u

/-! ## Resources of a connection -/

structure ConnectionState where
  addr : Nat
  lock : Nat
deriving DecidableEq, Repr

/-- The descriptors are the numbers of their entries in the ledger. -/
structure RecvResource where
  addr : Nat
  buffer : Buffer
  pipe : Nat
  readFd : Nat
  writeFd : Nat
  heart : Option Nat
deriving DecidableEq, Repr

structure EspushConnection where
  sock : Nat
  txid : UInt8
  state : Option ConnectionState
  res : Option RecvResource
deriving DecidableEq, Repr

def sizeofConnectionState : Int := 8
def sizeofRecvResource : Int := 36

/-- A handle that the system makes, or fails to make. -/
def openHandle (e : Env) (k : Kind) : Prog Mem (Option Nat) := do
  match ← espushMalloc e k 0 with
  | none => return none
  | some handle => return some handle.addr

theorem run_openHandle (e : Env) (k : Kind) (m : Mem) :
    (openHandle e k).run m =
      if e.grant m.heap.next k 0 then (some m.heap.next, { m with heap := m.heap.acquire k })
      else (none, { m with heap := m.heap.refuse }) := by
  cases hg : e.grant m.heap.next k 0 with
  | false =>
    simp only [openHandle, Prog.run_bind, run_espushMalloc, hg, Bool.false_eq_true, if_false,
      Prog.run_pure]
  | true =>
    simp only [openHandle, Prog.run_bind, run_espushMalloc, hg, if_true, Prog.run_pure,
      addr_freshBlock]

section

variable {m : Type → Type u} [MemSteps m]

def stateConnectionMalloc (e : Env) : m (Option ConnectionState) := do
  match ← espushMalloc e .connState sizeofConnectionState with
  | none => return none
  | some out =>
    match ← openHandle e .mutex with
    | none =>
      espushFree out.addr
      return none
    | some lock => return some ⟨out.addr, lock⟩

def stateConnectionFree (s : ConnectionState) : m Unit := do
  espushFree s.lock
  espushFree s.addr

/-- The pipe device and its two descriptors. -/
def resourcePipeInit (e : Env) : m (Option (Nat × Nat × Nat)) := do
  match ← openHandle e .pipe with
  | none => return none
  | some p =>
    match ← openHandle e .readFd with
    | none =>
      espushFree p
      return none
    | some readFd =>
      match ← openHandle e .writeFd with
      | none =>
        espushFree p
        espushFree readFd
        return none
      | some writeFd => return some (p, readFd, writeFd)

def resourcePipeDeinit (r : RecvResource) : m Unit := do
  espushFree r.readFd
  espushFree r.writeFd
  espushFree r.pipe

def resourceMalloc (e : Env) : m (Option RecvResource) := do
  match ← espushMalloc e .recvResource sizeofRecvResource with
  | none => return none
  | some out =>
    match ← mallocBuffer e maxRecvBufferLength with
    | none =>
      espushFree out.addr
      return none
    | some buffer =>
      match ← resourcePipeInit e with
      | none =>
        freeBuffer buffer
        espushFree out.addr
        return none
      | some (p, readFd, writeFd) => return some ⟨out.addr, buffer, p, readFd, writeFd, none⟩

end

def resourceHeartTimerInit (e : Env) (r : RecvResource) : Prog Mem (Int × RecvResource) := do
  match ← openHandle e .timer with
  | none => return (-1, r)
  | some heart => return (0, { r with heart := some heart })

def resourceHeartTimerDeinit (heart : Nat) : Prog Mem Unit := espushFree heart

def resourceFree (r : RecvResource) : Prog Mem Unit := do
  match r.heart with
  | some heart => resourceHeartTimerDeinit heart
  | none => pure ()
  resourcePipeDeinit r
  freeBuffer r.buffer
  espushFree r.addr

/-! ## The select loop -/

/-- The loop of `_nonblock_wait_recv`. -/
def waitLoop (e : Env) : List SessionEvent → RecvResource → Prog World RecvResource
  | [], r => pure r
  | .heart :: events, r => do
    heartTimeout
    waitLoop e events r
  | .select event :: events, r => do
    let s ← selectHandle e r.buffer event
    if s.1 < 0 then
      return { r with buffer := s.2 }
    waitLoop e events { r with buffer := s.2 }

def nonblockWaitRecv (e : Env) (events : List SessionEvent) (conn : EspushConnection) :
    Prog World (Int × EspushConnection) := do
  match ← (resourceMalloc e : Prog Mem _) with
  | none => return (-1, { conn with res := none })
  | some res =>
    -- the pipe device is new
    Prog.modify fun w => { w with pipe := [] }
    let conn := { conn with res := some res }
    let t ← (resourceHeartTimerInit e res : Prog Mem _)
    if t.1 < 0 then
      (resourceFree t.2 : Prog Mem _)
      return (-1, { conn with res := none })
    let res ← waitLoop e events t.2
    (resourceFree res : Prog Mem _)
    return (-1, { conn with res := none })

def cloudWaitForever (e : Env) (events : List SessionEvent) (conn : EspushConnection) :
    Prog World (Int × EspushConnection) := do
  match ← (stateConnectionMalloc e : Prog Mem _) with
  | none => return (-1, { conn with state := none })
  | some state =>
    let r ← nonblockWaitRecv e events { conn with state := some state }
    (stateConnectionFree state : Prog Mem _)
    return (r.1, { r.2 with state := none })

/-! ## Login -/

def authSuccess : UInt8 := 0x00

def hexDigit (n : Nat) : UInt8 := UInt8.ofNat (if n < 10 then 48 + n else 55 + n)

/-- `W60X` and the MAC address in hexadecimal. -/
def getImei (mac : Fin 6 → UInt8) : Bytes :=
  ascii "W60X" ++ (List.ofFn mac).flatMap fun b => [hexDigit (b.toNat / 16), hexDigit (b.toNat % 16)]

def cloudWriteFrame (e : Env) (conn : EspushConnection) (f : Frame) :
    Prog World (Int × EspushConnection) := do
  let conn := { conn with txid := conn.txid + 1 }
  let rc ← writeFrame e { f with txid := conn.txid }
  return (rc, conn)

/-- The statements of `cloud_authorization` from `recv_frame` on. -/
def readResponse (e : Env) (rsp : Frame) : Prog World Int := do
  let got ← recvFrame e .session rsp
  let rsp := got.2
  if rsp.length = 0 then
    (freeFrame rsp : Prog Mem _)
    return -1
  (touch .body rsp.data.size 0 1 : Prog Mem _)
  let code := if rsp.data = .null then e.nullByte else byteAt rsp.data.bytes 0
  if code ≠ authSuccess then
    (freeFrame rsp : Prog Mem _)
    return -1
  (freeFrame rsp : Prog Mem _)
  return 0

def cloudAuthorization (e : Env) (mac : Fin 6 → UInt8) (conn : EspushConnection) :
    Prog World (Int × EspushConnection) := do
  match ← (newLoginFrame e (getImei mac) : Prog Mem _) with
  | none => return (-1, conn)
  | some f =>
    let r ← cloudWriteFrame e conn f
    (freeFrame f : Prog Mem _)
    if r.1 < 0 then
      return (-1, r.2)
    match ← (mallocEmptyFrame e .session 0 : Prog Mem _) with
    | none => return (-1, r.2)
    | some rsp =>
      let rc ← readResponse e rsp
      return (rc, r.2)

/-! ## The session -/

def dnsQueryTimes : Nat := 10

/-- The loop of `dns_query_byname` from attempt `i` on, with `n` attempts left. -/
def dnsQueryFrom (o : Outside) (name : Bytes) : Nat → Nat → Option Nat
  | 0, _ => none
  | n + 1, i =>
    match o.dns name i with
    | none => dnsQueryFrom o name n (i + 1)
    | some addr => some addr

/-- The address, or -1. -/
def dnsQueryByname (o : Outside) (name : Bytes) : Option Nat := dnsQueryFrom o name dnsQueryTimes 0

/-- The loop of `create_socket_and_connect` from attempt `i` on, with `n` attempts
left; `rc` is what the last `connect` returned. -/
def connectFrom (e : Env) (o : Outside) (servAddr : Nat × Nat) :
    Nat → Nat → Int → Prog Mem (Int × Option Nat)
  | 0, _, rc => pure (rc, none)
  | n + 1, i, _ => do
    match ← openHandle e .socket with
    | none => return (-1, none)
    | some fd =>
      let rc := o.connect servAddr i
      if rc < 0 then
        espushFree fd
        connectFrom e o servAddr n (i + 1) rc
      else
        return (rc, some fd)

/-- `*sock` is set exactly when the return code is not negative. -/
def createSocketAndConnect (e : Env) (o : Outside) (servAddr : Nat × Nat) :
    Prog Mem (Int × Option Nat) :=
  connectFrom e o servAddr 5 0 (-1)

def sendDevInfo : Prog World Int := pure 0

/-- The statements of `sock_task` from `cloud_authorization` on. -/
def sockTaskConnected (e : Env) (o : Outside) (conn : EspushConnection) :
    Prog World (Int × EspushConnection) := do
  let a ← cloudAuthorization e o.mac conn
  if a.1 < 0 then
    (espushFree conn.sock : Prog Mem _)
    return (responseAuthorizationFail, a.2)
  let d ← sendDevInfo
  if d < 0 then
    (espushFree conn.sock : Prog Mem _)
    return (-1, a.2)
  let r ← cloudWaitForever e o.events a.2
  (espushFree conn.sock : Prog Mem _)
  return (if r.1 < 0 then -1 else r.1, r.2)

def sockTask (e : Env) (o : Outside) : Prog World (Int × EspushConnection) := do
  let conn : EspushConnection := ⟨0, 0, none, none⟩
  let b ← (bootstrap o o.staleAddr : Prog Mem _)
  if b.1 < 0 then
    return (b.1, conn)
  let addr := b.2
  match dnsQueryByname o (cString addr.host) with
  | none => return (-1, conn)
  | some server =>
    let c ← (createSocketAndConnect e o (server, addr.port) : Prog Mem _)
    match c.2 with
    | none => return (-1, conn)
    | some sock => sockTaskConnected e o { conn with sock := sock }

/-- The rounds of `espush_task` in which the network is ready, each with the answers
from outside and with what its socket will receive. The result is the delay in
milliseconds after each round. -/
def espushTask (e : Env) : List (Outside × List Delivery) → Prog World (List Nat)
  | [] => pure []
  | (o, inbox) :: rounds => do
    Prog.modify fun w => { w with inbox := inbox }
    let r ← sockTask e o
    let delay := if r.1 = responseAuthorizationFail then 1000 * 3600 else 1000
    let delays ← espushTask e rounds
    return delay :: delays

end EspushW60x
