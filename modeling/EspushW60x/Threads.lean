import EspushW60x.Lib.Thread
import EspushW60x.Resources

/-!
# `espush_task` as a thread

`heart_timeout` runs in the timer thread, between any two steps of the thread that
serves the connection. Here the functions of a session are threads: each request to the
platform (an allocation, a release, an `open`, a `recv`, a `send`, a read of the pipe)
and each assignment to `conn` is a step of its own. Most functions are the ones of the
other modules, which are defined for every `WorldSteps`. Those that assign to `conn`, or
start and stop the timer, keep their names in the namespace `Interleaved`.
-/

namespace EspushW60x

open Lib

/-! ## The shared state -/

/-- What the thread and the timer share. `started` has the timers that are running. -/
structure Shared where
  world : World
  conn : EspushConnection
  started : List Nat

instance : MonadLift (Prog World) (Prog Shared) where
  monadLift := Prog.zoom Shared.world fun w s => { s with world := w }

/-- The steps over the world are steps of a thread. -/
instance : WorldSteps (Thread Shared) where
  mem x := Thread.atomic (liftM (liftM x : Prog World _))
  world x := Thread.atomic (liftM x)

/-- A timer runs `heart_timeout` while it is started. -/
def heart : Interrupt Shared where
  enabled s := s.started ≠ []
  handler := (heartTimeout : Prog World Unit)

/-- What `heart_timeout` takes for granted. -/
structure HeartSafe (s : Shared) : Prop where
  state : ∃ st, s.conn.state = some st ∧ (st.addr, Kind.connState) ∈ s.world.mem.heap.live
  res : ∃ r, s.conn.res = some r ∧ (r.addr, Kind.recvResource) ∈ s.world.mem.heap.live ∧
    (r.writeFd, Kind.writeFd) ∈ s.world.mem.heap.live

namespace Interleaved

/-! ## Assignments to `conn`, and the timer -/

def setConn (conn : EspushConnection) : Prog Shared Unit :=
  Prog.modify fun s => { s with conn := conn }

def setSock (sock : Nat) : Prog Shared Unit :=
  Prog.modify fun s => { s with conn := { s.conn with sock := sock } }

def setState (state : Option ConnectionState) : Prog Shared Unit :=
  Prog.modify fun s => { s with conn := { s.conn with state := state } }

def setRes (res : Option RecvResource) : Prog Shared Unit :=
  Prog.modify fun s => { s with conn := { s.conn with res := res } }

/-- `rt_timer_start` -/
def timerStart (timer : Nat) : Prog Shared Unit :=
  Prog.modify fun s => { s with started := timer :: s.started }

/-- `rt_timer_stop` -/
def timerStop (timer : Nat) : Prog Shared Unit :=
  Prog.modify fun s => { s with started := s.started.erase timer }

/-! ## The select loop -/

/-- The loop of `_nonblock_wait_recv`. The buffer is part of `conn->res`. -/
def waitLoop (e : Env) : List SelectEvent → RecvResource → Thread Shared RecvResource
  | [], r => pure r
  | event :: events, r => do
    let s ← selectHandle e r.buffer event
    setRes (some { r with buffer := s.2 })
    if s.1 < 0 then
      return { r with buffer := s.2 }
    waitLoop e events { r with buffer := s.2 }

/-! ## The resources of a connection -/

def resourceHeartTimerInit (e : Env) (r : RecvResource) : Thread Shared (Int × RecvResource) := do
  match ← openHandle e .timer with
  | none => return (-1, r)
  | some heart =>
    setRes (some { r with heart := some heart })
    -- from here on `heart_timeout` may run
    timerStart heart
    return (0, { r with heart := some heart })

def resourceHeartTimerDeinit (heart : Nat) : Thread Shared Unit := do
  timerStop heart
  espushFree heart

def resourceFree (r : RecvResource) : Thread Shared Unit := do
  match r.heart with
  | some heart => resourceHeartTimerDeinit heart
  | none => pure ()
  resourcePipeDeinit r
  freeBuffer r.buffer
  espushFree r.addr

/-! ## Sessions -/

def nonblockWaitRecv (e : Env) (events : List SelectEvent) : Thread Shared Int := do
  let res ← resourceMalloc e
  setRes res
  match res with
  | none => return -1
  | some res =>
    (Prog.modify fun w => { w with pipe := [] } : Prog World Unit)
    let t ← resourceHeartTimerInit e res
    if t.1 < 0 then
      resourceFree t.2
      setRes none
      return -1
    let res ← waitLoop e events t.2
    resourceFree res
    setRes none
    return -1

/-- The events without the expiries of the timer. -/
def selectEvents (events : List SessionEvent) : List SelectEvent :=
  events.filterMap fun
    | .heart => none
    | .select event => some event

def cloudWaitForever (e : Env) (events : List SelectEvent) : Thread Shared Int := do
  let state ← stateConnectionMalloc e
  setState state
  match state with
  | none => return -1
  | some state =>
    let rc ← nonblockWaitRecv e events
    stateConnectionFree state
    setState none
    return rc

/-- The timer does not exist yet: the login is one step. -/
def cloudAuthorization (e : Env) (mac : Fin 6 → UInt8) : Prog Shared Int := fun s =>
  let r := (EspushW60x.cloudAuthorization e mac s.conn).run s.world
  (r.1.1, { s with world := r.2, conn := r.1.2 })

def sockTaskConnected (e : Env) (o : Outside) (sock : Nat) : Thread Shared Int := do
  let a ← cloudAuthorization e o.mac
  if a < 0 then
    espushFree sock
    return responseAuthorizationFail
  let d ← sendDevInfo
  if d < 0 then
    espushFree sock
    return -1
  let rc ← cloudWaitForever e (selectEvents o.events)
  espushFree sock
  return if rc < 0 then -1 else rc

def sockTask (e : Env) (o : Outside) : Thread Shared Int := do
  setConn ⟨0, 0, none, none⟩
  let b ← bootstrap o o.staleAddr
  if b.1 < 0 then
    return b.1
  match dnsQueryByname o (cString b.2.host) with
  | none => return -1
  | some server =>
    let c ← createSocketAndConnect e o (server, b.2.port)
    match c.2 with
    | none => return -1
    | some sock =>
      setSock sock
      sockTaskConnected e o sock

def espushTask (e : Env) : List (Outside × List Delivery) → Thread Shared (List Nat)
  | [] => pure []
  | (o, inbox) :: rounds => do
    (Prog.modify fun w => { w with inbox := inbox } : Prog World Unit)
    let rc ← sockTask e o
    let delay := if rc = responseAuthorizationFail then 1000 * 3600 else 1000
    let delays ← espushTask e rounds
    return delay :: delays

end Interleaved

end EspushW60x
