import EspushW60x.Lightproto
import EspushW60x.ReceiveBuffer

/-!
# The event loop: `select.c` and the frame handlers of `espush.c`

`async_sock_recv` reads up to 128 bytes, adds them to the receive buffer and
calls `handle_buffer`, which takes at most one frame out of the buffer and hands
it to `handle_frame`.

Results:
* `handleFrame_result`: what a handler can do to the world;
* `handleBuffer_result`, `asyncSockRecv_result`: the exits of the two functions.
-/

namespace EspushW60x

open Lib

universe u

def mleHeartResponse : UInt8 := 0x80
def mleFirmwareUpgrade : UInt8 := 0x82
def mleUartTransport : UInt8 := 0x83
def mleForceReboot : UInt8 := 0x84
def mleServerProbe : UInt8 := 0x85
/-- `PIPE_BUFSZ` -/
def pipeBufSize : Nat := 512

/-! ## Handlers -/

def handleHeartResponseFrame : Prog World Int := pure 0

def handleForceFirmwareUpgradeFrame : Prog World Int := pure 0

def handleUartTransportFrame {m : Type → Type u} [WorldSteps m] (e : Env) (f : Frame) : m Int := do
  handleUartBuffer e f
  return 0

def handleForceRebootFrame : Prog World Int := pure 0

def probeBuf : Bytes := [0, 3, 0, 0, 0xFF]

def handleServerProbeFrame (e : Env) : Prog World Int := send e probeBuf

/-- The branch for an unknown method does not assign `rc`. -/
def handleFrame {m : Type → Type u} [WorldSteps m] (e : Env) (f : Frame) : m Int := do
  let calls ← (Prog.read fun w => w.handled.length : Prog World Nat)
  (Prog.modify fun w => { w with handled := w.handled ++ [f.message] } : Prog World Unit)
  if f.method = mleHeartResponse then
    handleHeartResponseFrame
  else if f.method = mleFirmwareUpgrade then
    handleForceFirmwareUpgradeFrame
  else if f.method = mleUartTransport then
    handleUartTransportFrame e f
  else if f.method = mleForceReboot then
    handleForceRebootFrame
  else if f.method = mleServerProbe then
    handleServerProbeFrame e
  else
    return e.stale calls

/-! ## Reading the socket and the pipe -/

/-- `read` on the pipe: the oldest bytes, as many as there are up to `len`. -/
def readPipe (len : Nat) : Prog World (Int × Bytes) := fun w =>
  (((w.pipe.take len).length, w.pipe.take len), { w with pipe := w.pipe.drop len })

@[simp] theorem run_readPipe (len : Nat) (w : World) :
    (readPipe len).run w =
      ((((w.pipe.take len).length : Int), w.pipe.take len), { w with pipe := w.pipe.drop len }) := by
  rfl

section

variable {m : Type → Type u} [WorldSteps m]

def handleBuffer (e : Env) (buf : Buffer) : m (Int × Buffer) := do
  if bufferIsFull buf then
    return (-1, buf)
  let length ← bufferTryExtract buf
  if length = 0 then
    return (0, buf)
  match ← mallocEmptyFrame e .message 0 with
  | none => return (-1, buf)
  | some f =>
    -- the NUL behind the data takes one byte more
    let r ← deserializeFrame e .message buf.buffer.bytes (sizeT (length + 1)) f
    let buf ← bufferShrink buf (sizeT length)
    if r.1 < 0 then
      freeFrame r.2
      return (-1, buf)
    let rc ← handleFrame e r.2
    if rc < 0 then
      freeFrame r.2
      return (-1, buf)
    return (rc, buf)

def asyncSockRecv (e : Env) (buf : Buffer) : m (Int × Buffer) := do
  let r ← recv .rcvBuf (some 128) 0 128
  if r.1 < 0 then
    return (-1, buf)
  if r.1 = 0 then
    return (-1, buf)
  let a ← bufferAddData buf r.2
  if a.1 < 0 then
    return (-1, a.2)
  handleBuffer e a.2

def asyncPipeRead (e : Env) : m Int := do
  let r ← readPipe 128
  if r.1 = 0 then
    return 0
  if r.1 < 0 then
    return -1
  let _ ← send e r.2
  return 0

def selectHandle (e : Env) (buf : Buffer) : SelectEvent → m (Int × Buffer)
  | .timeout => pure (0, buf)
  | .error => pure (-1, buf)
  | .ready sock pipe => do
    let r ← if sock then asyncSockRecv e buf else pure (0, buf)
    if r.1 < 0 then
      return (-1, r.2)
    let rc ← if pipe then asyncPipeRead e else pure 0
    if rc < 0 then
      return (-1, r.2)
    return (0, r.2)

end

def heartBuf : Bytes := [0, 3, 0, 0, 0xFF]

/-- The timer writes `heart_buf` when the pipe has room for it. -/
def heartTimeout : Prog World Unit :=
  Prog.modify fun w =>
    if w.pipe.length + heartBuf.length ≤ pipeBufSize then { w with pipe := w.pipe ++ heartBuf }
    else w

theorem asyncPipeRead_rc (e : Env) (w : World) : ((asyncPipeRead e).run w).1 = 0 := by
  simp only [asyncPipeRead, lift_world, Prog.run_bind, run_readPipe, Prog.run_ite, Prog.run_pure]
  split
  · rfl
  · split
    next h => omega
    next => rfl

theorem run_selectHandle_ready (e : Env) (buf : Buffer) (sock pipe : Bool) (w : World) :
    (selectHandle e buf (.ready sock pipe)).run w =
      let r := if sock then (asyncSockRecv e buf).run w else ((0, buf), w)
      if r.1.1 < 0 then ((-1, r.1.2), r.2)
      else ((0, r.1.2), if pipe then ((asyncPipeRead e).run r.2).2 else r.2) := by
  cases sock <;> cases pipe <;> simp [selectHandle, asyncPipeRead_rc]

/-! ## What a handler does -/

/-- The return code of the handler of `m`, called on `w`. -/
def handlerRc (e : Env) (m : Message) (w : World) : Int :=
  if m.method = mleHeartResponse ∨ m.method = mleFirmwareUpgrade ∨ m.method = mleUartTransport ∨
      m.method = mleForceReboot then 0
  else if m.method = mleServerProbe then e.sendRc w.sends probeBuf.length
  else e.stale w.handled.length

/-- The world when the handler starts. -/
def World.called (w : World) (m : Message) : World := { w with handled := w.handled ++ [m] }

/-- The ways a call of `handle_frame` ends. -/
inductive HandleFrameResult (e : Env) (f : Frame) (w : World) : Int × World → Prop
  | silent : f.method ≠ mleUartTransport → f.method ≠ mleServerProbe →
      HandleFrameResult e f w (handlerRc e f.message w, w.called f.message)
  | uart (w' : World) : f.method = mleUartTransport → UartResult e f (w.called f.message) w' →
      HandleFrameResult e f w (0, w')
  | probe : f.method = mleServerProbe →
      HandleFrameResult e f w ((send e probeBuf).run (w.called f.message))

theorem handleFrame_result (e : Env) (f : Frame) (w : World) :
    HandleFrameResult e f w ((handleFrame e f).run w) := by
  have hm : f.message.method = f.method := rfl
  simp only [handleFrame, lift_world, Prog.run_bind, Prog.run_read, Prog.run_modify, Prog.run_ite]
  by_cases huart : f.method = mleUartTransport
  · rw [if_neg (by rw [huart]; decide), if_neg (by rw [huart]; decide), if_pos huart]
    exact .uart _ huart (handleUartBuffer_result _ _ _)
  · by_cases hprobe : f.method = mleServerProbe
    · rw [if_neg (by rw [hprobe]; decide), if_neg (by rw [hprobe]; decide), if_neg huart,
        if_neg (by rw [hprobe]; decide), if_pos hprobe]
      exact .probe hprobe
    · have hres := HandleFrameResult.silent (e := e) (w := w) huart hprobe
      rw [handlerRc, hm] at hres
      split
      next h => rwa [if_pos (.inl h)] at hres
      next h1 =>
        split
        next h => rwa [if_pos (.inr (.inl h))] at hres
        next h2 =>
          split
          next h => rwa [if_pos (.inr (.inr (.inr h)))] at hres
          next h3 =>
            have hnone : ¬ (f.method = mleHeartResponse ∨ f.method = mleFirmwareUpgrade ∨
                f.method = mleUartTransport ∨ f.method = mleForceReboot) := by
              rintro (h | h | h | h)
              · exact h1 h
              · exact h2 h
              · exact huart h
              · exact h3 h
            rwa [if_neg hnone, if_neg hprobe] at hres

/-! ## Extraction -/

/-- The first frame in `c` is decoded: its header is at least 2, and its body, if
it has one, is granted. -/
def Decoded (e : Env) (next : Nat) (c : Bytes) : Prop :=
  2 ≤ ofBe16 c ∧ (ofBe16 c = 2 ∨ e.grant next (.body .message) ((ofBe16 c : Int) - 2) = true)

instance (e : Env) (next : Nat) (c : Bytes) : Decidable (Decoded e next c) :=
  inferInstanceAs (Decidable (_ ∧ (_ ∨ _)))

/-- The frame that was decoded, and the ledger with what it owns. -/
inductive OwnedFrame (heap : Ledger Kind) : Frame → Ledger Kind → Prop
  | empty (f : Frame) : f.addr = heap.next → f.data = .null →
      OwnedFrame heap f (heap.acquire (.frame .message))
  | body (f : Frame) (bytes : Bytes) : f.addr = heap.next → f.dataFlag = .dyn →
      f.data = .dyn ⟨heap.next + 1, bytes⟩ →
      OwnedFrame heap f ((heap.acquire (.frame .message)).acquire (.body .message))

/-- The ways a call of `handle_buffer` ends. `c` stands for the contents of the
buffer. -/
inductive HandleBufferResult (e : Env) (buf : Buffer) (w : World) : (Int × Buffer) × World → Prop
  | full : 252 ≤ buf.len → HandleBufferResult e buf w ((-1, buf), w)
  | waiting (log : List Access) : buf.len < 252 → ¬ frameFormat.HasFrame buf.contents →
      HandleBufferResult e buf w ((0, buf), { w with mem := { w.mem with log := log } })
  | refused (log : List Access) : buf.len < 252 → frameFormat.HasFrame buf.contents →
      e.grant w.mem.heap.next (.frame .message) sizeofFrame = false →
      HandleBufferResult e buf w ((-1, buf), { w with mem := ⟨w.mem.heap.refuse, log⟩ })
  | malformed (heap : Ledger Kind) (log : List Access) : buf.len < 252 →
      frameFormat.HasFrame buf.contents →
      e.grant w.mem.heap.next (.frame .message) sizeofFrame = true →
      ¬ Decoded e (w.mem.heap.next + 1) buf.contents →
      w.mem.heap.Extends heap [] →
      HandleBufferResult e buf w
        ((-1, buf.shrink (frameLen buf.contents)), { w with mem := ⟨heap, log⟩ })
  | handled (f : Frame) (heap : Ledger Kind) (log : List Access) (r : Int × World) :
      buf.len < 252 → frameFormat.HasFrame buf.contents →
      e.grant w.mem.heap.next (.frame .message) sizeofFrame = true →
      Decoded e (w.mem.heap.next + 1) buf.contents →
      OwnedFrame w.mem.heap f heap → f.message = decode (buf.contents.take (frameLen buf.contents)) →
      HandleFrameResult e f { w with mem := ⟨heap, log⟩ } r →
      HandleBufferResult e buf w
        (if r.1 < 0 then
          ((-1, buf.shrink (frameLen buf.contents)),
            { r.2 with mem := ((freeFrame f).run r.2.mem).2 })
        else ((r.1, buf.shrink (frameLen buf.contents)), r.2))

namespace EventLoopLemmas

theorem sizeT_natCast {n : Nat} (h : n < 0x100000000) : sizeT (n : Int) = n := by
  rw [sizeT_of_nonneg (Int.natCast_nonneg n) (by omega), Int.toNat_natCast]

theorem run_freeFrame_null {f : Frame} (h : f.data = .null) (m : Mem) :
    (freeFrame f).run m = ((), { m with heap := m.heap.release f.addr }) := by
  simp only [freeFrame, h]
  rfl

theorem run_freeFrame_dyn {f : Frame} {b : Block} (hflag : f.dataFlag = .dyn)
    (h : f.data = .dyn b) (m : Mem) :
    (freeFrame f).run m = ((), { m with heap := (m.heap.release b.addr).release f.addr }) := by
  simp only [freeFrame, lift_mem, h, hflag, Prog.run_bind, run_espushFree]

/-- Steps over the memory are steps over the world. -/
theorem run_freeFrame_world (f : Frame) (w : World) :
    (freeFrame f : Prog World Unit).run w =
      ((), { w with mem := ((freeFrame f : Prog Mem Unit).run w.mem).2 }) := by
  simp only [freeFrame]
  cases f.data <;> cases f.dataFlag <;> rfl

/-- The first frame of the contents lies at the head of the block. -/
theorem take_frameLen {buf : Buffer} (h : frameFormat.HasFrame buf.contents) :
    ofBe16 buf.buffer.bytes = ofBe16 buf.contents ∧
      buf.buffer.bytes.take (frameLen buf.contents) = buf.contents.take (frameLen buf.contents) := by
  have hlen : frameLen buf.contents ≤ buf.len := by
    have := h.2
    rwa [length_contents] at this
  have hhead : 4 ≤ buf.contents.length := h.1
  rw [length_contents] at hhead
  refine ⟨ofBe16_contents (by omega), ?_⟩
  show _ = (buf.buffer.bytes.take buf.len).take (frameLen buf.contents)
  rw [List.take_take, Nat.min_eq_left hlen]

/-- Once a frame was extracted and its struct granted. -/
theorem run_handleBuffer_extracted {e : Env} {buf : Buffer} {w : World}
    (hcap : buf.cap = maxRecvBufferLength) (hlen : buf.len < 252)
    (hfr : frameFormat.HasFrame buf.contents)
    (hg : e.grant w.mem.heap.next (.frame .message) sizeofFrame = true) :
    ∃ log, ∀ d, (deserializeFrame e .message buf.buffer.bytes (frameLen buf.contents + 1)
        ⟨w.mem.heap.next, 0, 0, .static, .null, 0⟩).run
          ⟨w.mem.heap.acquire (.frame .message), log⟩ = d →
      ∃ log', (handleBuffer e buf).run w =
        if d.1.1 < 0 then
          ((-1, buf.shrink (frameLen buf.contents)),
            { w with mem := ((freeFrame d.1.2).run { d.2 with log := log' }).2 })
        else
          let r := (handleFrame e d.1.2).run { w with mem := { d.2 with log := log' } }
          if r.1 < 0 then
            ((-1, buf.shrink (frameLen buf.contents)),
              { r.2 with mem := ((freeFrame d.1.2).run r.2.mem).2 })
          else ((r.1, buf.shrink (frameLen buf.contents)), r.2) := by
  have hfull : ¬ bufferIsFull buf = true := by
    rw [bufferIsFull_iff hcap]
    omega
  have hn : frameLen buf.contents ≤ buf.len := by
    have := hfr.2
    rwa [length_contents] at this
  have hpos : ¬ (frameLen buf.contents : Int) = 0 := by
    unfold frameLen
    omega
  obtain ⟨log, hext⟩ := run_bufferTryExtract buf w.mem
  rw [if_pos hfr] at hext
  refine ⟨log, fun d hd => ?_⟩
  obtain ⟨log', hshrink⟩ := run_bufferShrink buf (frameLen buf.contents) d.2
  refine ⟨log', ?_⟩
  have hsize : sizeT ((frameLen buf.contents : Int) + 1) = frameLen buf.contents + 1 :=
    sizeT_natCast (n := frameLen buf.contents + 1) (by omega)
  have hsize' : sizeT (frameLen buf.contents : Int) = frameLen buf.contents :=
    sizeT_natCast (by omega)
  simp only [handleBuffer, if_neg hfull, Prog.run_bind, run_liftMem, hext, if_neg hpos,
    mallocEmptyFrame, run_espushMalloc, hg, if_true, Prog.run_pure, addr_freshBlock, hsize, hsize',
    hd, hshrink, Prog.run_ite, run_freeFrame_world]

end EventLoopLemmas

open EventLoopLemmas

theorem handleBuffer_result {e : Env} {buf : Buffer} {w : World}
    (hcap : buf.cap = maxRecvBufferLength) :
    HandleBufferResult e buf w ((handleBuffer e buf).run w) := by
  by_cases hfull : 252 ≤ buf.len
  · have hrun : (handleBuffer e buf).run w = ((-1, buf), w) := by
      simp only [handleBuffer, if_pos ((bufferIsFull_iff hcap).mpr hfull), Prog.run_pure]
    rw [hrun]
    exact .full hfull
  have hlen : buf.len < 252 := Nat.lt_of_not_le hfull
  have hnf : ¬ bufferIsFull buf = true := mt (bufferIsFull_iff hcap).mp hfull
  by_cases hfr : frameFormat.HasFrame buf.contents
  · have hn : frameLen buf.contents ≤ buf.len := by
      have := hfr.2
      rwa [length_contents] at this
    have hleft : ofBe16 buf.contents + 2 ≤ buf.len := hn
    cases hg : e.grant w.mem.heap.next (.frame .message) sizeofFrame with
    | false =>
      obtain ⟨log, hext⟩ := run_bufferTryExtract buf w.mem
      rw [if_pos hfr] at hext
      have hpos : ¬ (frameLen buf.contents : Int) = 0 := by
        unfold frameLen
        omega
      have hrun : (handleBuffer e buf).run w =
          ((-1, buf), { w with mem := ⟨w.mem.heap.refuse, log⟩ }) := by
        simp only [handleBuffer, if_neg hnf, Prog.run_bind, run_liftMem, hext, if_neg hpos,
          mallocEmptyFrame, run_espushMalloc, hg, Bool.false_eq_true, if_false, Prog.run_pure]
      rw [hrun]
      exact .refused log hlen hfr hg
    | true =>
      obtain ⟨log, hrun⟩ := run_handleBuffer_extracted (w := w) hcap hlen hfr hg
      have hin : frameLen buf.contents + 1 ≤ buf.buffer.bytes.length + 1 :=
        Nat.succ_le_succ (Nat.le_trans hn buf.len_le)
      obtain ⟨hbe, htake⟩ := take_frameLen hfr
      have hdes := deserializeFrame_result e .message _ _ ⟨w.mem.heap.next, 0, 0, .static, .null, 0⟩
        ⟨w.mem.heap.acquire (.frame .message), log⟩ hin
      have hmsg := deserializeFrame_message e .message _ _ ⟨w.mem.heap.next, 0, 0, .static, .null, 0⟩
        ⟨w.mem.heap.acquire (.frame .message), log⟩ hin
      generalize hd : (deserializeFrame e .message buf.buffer.bytes (frameLen buf.contents + 1)
        ⟨w.mem.heap.next, 0, 0, .static, .null, 0⟩).run
          ⟨w.mem.heap.acquire (.frame .message), log⟩ = d at hdes hmsg
      obtain ⟨log', hrun⟩ := hrun d hd
      have hmsg : d.1.1 = 0 → d.1.2.message = decode (buf.contents.take (frameLen buf.contents)) := by
        intro hok
        rw [(hmsg hok).1, ← htake, frameLen, hbe]
      have hneg : (-1 : Int) < 0 := by decide
      have hpos : ¬ (0 : Int) < 0 := by decide
      rw [hrun]
      cases hdes with
      | reject _ hrej =>
        -- the buffer is smaller than the largest frame
        rw [hbe, frameLen] at hrej
        simp only [maxFrameLeft] at hrej
        omega
      | refused _ _ _ htwo hbody =>
        rw [hbe] at htwo hbody
        have hdec : ¬ Decoded e (w.mem.heap.next + 1) buf.contents := by
          rintro ⟨_, h | h⟩
          · exact htwo h
          · rw [Ledger.next_acquire] at hbody
            rw [hbody] at h
            cases h
        rw [if_pos hneg, run_freeFrame_null rfl]
        exact .malformed _ _ hlen hfr hg hdec
          (((Ledger.Extends.refl _).acquire _).refuse.release)
      | empty _ _ htwo =>
        rw [hbe] at htwo
        have hdec : Decoded e (w.mem.heap.next + 1) buf.contents := ⟨by omega, .inl htwo⟩
        rw [if_neg hpos]
        exact .handled _ _ _ _ hlen hfr hg hdec (.empty _ rfl rfl) (hmsg rfl)
          (handleFrame_result _ _ _)
      | body _ _ _ hleft hbody =>
        rw [hbe] at hleft hbody
        have hdec : Decoded e (w.mem.heap.next + 1) buf.contents := ⟨by omega, .inr hbody⟩
        rw [if_neg hpos]
        exact .handled _ _ _ _ hlen hfr hg hdec (.body _ _ rfl rfl rfl) (hmsg rfl)
          (handleFrame_result _ _ _)
  · obtain ⟨log, hext⟩ := run_bufferTryExtract buf w.mem
    rw [if_neg hfr] at hext
    have hrun : (handleBuffer e buf).run w =
        ((0, buf), { w with mem := { w.mem with log := log } }) := by
      simp only [handleBuffer, if_neg hnf, Prog.run_bind, run_liftMem, hext, if_true,
        Prog.run_pure]
    rw [hrun]
    exact .waiting log hlen hfr

/-! ## One readable event -/

/-- What `recv` finds when the socket is readable. -/
def arrival (w : World) : Int × Bytes × List Delivery := nextDelivery 128 w.inbox

/-- The ways a call of `async_sock_recv` ends. -/
inductive SockRecvResult (e : Env) (buf : Buffer) (w : World) : (Int × Buffer) × World → Prop
  | closed (log : List Access) : (arrival w).2.1 = [] →
      SockRecvResult e buf w
        ((-1, buf), { w with mem := { w.mem with log := log }, inbox := (arrival w).2.2 })
  | overflow (log : List Access) : (arrival w).2.1 ≠ [] →
      maxRecvBufferLength < buf.len + (arrival w).2.1.length →
      SockRecvResult e buf w
        ((-1, buf), { w with mem := { w.mem with log := log }, inbox := (arrival w).2.2 })
  | buffered (buf1 : Buffer) (log : List Access) (r : (Int × Buffer) × World) :
      (arrival w).2.1 ≠ [] → buf.len + (arrival w).2.1.length ≤ maxRecvBufferLength →
      buf.SameBlock buf1 → buf1.contents = buf.contents ++ (arrival w).2.1 →
      HandleBufferResult e buf1
        { w with mem := { w.mem with log := log }, inbox := (arrival w).2.2 } r →
      SockRecvResult e buf w r

namespace EventLoopLemmas

/-- `recv` returns a positive number exactly when it found something. -/
theorem nextDelivery_rc_pos {len : Int} {inbox : List Delivery} :
    (nextDelivery len inbox).2.1 = [] ↔ (nextDelivery len inbox).1 ≤ 0 := by
  have h := nextDelivery_rc len inbox
  rw [← List.length_eq_zero_iff, h]
  exact Int.toNat_eq_zero

theorem length_arrival_le (w : World) : (arrival w).2.1.length ≤ 128 := by
  unfold arrival
  match w.inbox with
  | [] => exact Nat.zero_le _
  | .error _ :: _ => exact Nat.zero_le _
  | .segment bs :: _ =>
    show (bs.take 128).length ≤ 128
    rw [List.length_take]
    exact Nat.min_le_left _ _

theorem HandleFrameResult.rc {e : Env} {f : Frame} {w : World} {r : Int × World}
    (h : HandleFrameResult e f w r) : r.1 = handlerRc e f.message w := by
  have hm : f.message.method = f.method := rfl
  cases h with
  | silent => rfl
  | uart _ huart =>
    rw [handlerRc, hm, if_pos (.inr (.inr (.inl huart)))]
  | probe hprobe =>
    rw [handlerRc, hm, hprobe, if_neg (by decide), if_pos rfl]
    rfl

/-- A handler leaves the socket's input and the pipe alone. -/
theorem HandleFrameResult.frame {e : Env} {f : Frame} {w : World} {r : Int × World}
    (h : HandleFrameResult e f w r) :
    r.2.inbox = w.inbox ∧ r.2.pipe = w.pipe ∧ r.2.handled = w.handled ++ [f.message] := by
  cases h with
  | silent => exact ⟨rfl, rfl, rfl⟩
  | probe => exact ⟨rfl, rfl, rfl⟩
  | uart w' _ hu =>
    cases hu with
    | ignored => exact ⟨rfl, rfl, rfl⟩
    | answered out w1 _ _ hp hw =>
      obtain ⟨pins, log, rfl⟩ := hp
      cases hw <;> exact ⟨rfl, rfl, rfl⟩

end EventLoopLemmas

theorem asyncSockRecv_result {e : Env} {buf : Buffer} {w : World}
    (hcap : buf.cap = maxRecvBufferLength) :
    SockRecvResult e buf w ((asyncSockRecv e buf).run w) := by
  have hpos : (arrival w).2.1 = [] ↔ (arrival w).1 ≤ 0 := nextDelivery_rc_pos
  have hle := length_arrival_le w
  by_cases hgot : (arrival w).2.1 = []
  · have hrun : (asyncSockRecv e buf).run w = ((-1, buf), { w with
        mem := { w.mem with log := ⟨.rcvBuf, some 128, 0, 128⟩ :: w.mem.log }
        inbox := (arrival w).2.2 }) := by
      have hrc := hpos.mp hgot
      rw [arrival] at hrc
      simp only [asyncSockRecv, lift_world, Prog.run_bind, run_recv, Prog.run_ite, Prog.run_pure]
      split
      · rfl
      · rw [if_pos (by omega)]
        rfl
    rw [hrun]
    exact .closed _ hgot
  · have hadd := bufferAddData_result buf (arrival w).2.1
      { w.mem with log := ⟨.rcvBuf, some 128, 0, 128⟩ :: w.mem.log }
      (by rw [hcap]; decide) (by omega)
    generalize ha : (bufferAddData buf (arrival w).2.1).run
      { w.mem with log := ⟨.rcvBuf, some 128, 0, 128⟩ :: w.mem.log } = a at hadd
    have hrun : (asyncSockRecv e buf).run w =
        if a.1.1 < 0 then
          ((-1, a.1.2), { w with mem := a.2, inbox := (arrival w).2.2 })
        else (handleBuffer e a.1.2).run { w with mem := a.2, inbox := (arrival w).2.2 } := by
      have hrc : ¬ (arrival w).1 ≤ 0 := mt hpos.mpr hgot
      rw [arrival] at hrc ha
      simp only [asyncSockRecv, lift_world, Prog.run_bind, run_recv, Prog.run_ite, Prog.run_pure,
        run_liftMem, ha]
      rw [if_neg (by omega), if_neg (by omega)]
      rfl
    rw [hrun]
    cases hadd with
    | refused hbig =>
      rw [if_pos (show (-1 : Int) < 0 by decide)]
      exact .overflow _ hgot (by rw [← hcap]; exact hbig)
    | added buf1 log hfit hsame hc =>
      rw [if_neg (Int.not_lt.mpr (Int.natCast_nonneg _))]
      exact .buffered buf1 log _ hgot (by rw [← hcap]; exact hfit) hsame hc
        (handleBuffer_result (hsame.2.2.trans hcap))

/-- A call does not move the buffer. -/
theorem asyncSockRecv_sameBlock {e : Env} {buf : Buffer} {w : World}
    (hcap : buf.cap = maxRecvBufferLength) : buf.SameBlock ((asyncSockRecv e buf).run w).1.2 := by
  have h := asyncSockRecv_result (e := e) (w := w) hcap
  generalize (asyncSockRecv e buf).run w = r at h
  cases h with
  | closed => exact .refl buf
  | overflow => exact .refl buf
  | buffered buf1 _ r _ _ hsame _ hres =>
    cases hres with
    | full => exact hsame
    | waiting => exact hsame
    | refused => exact hsame
    | malformed => exact hsame.trans (sameBlock_shrink buf1 _)
    | handled f heap log r =>
      split
      · exact hsame.trans (sameBlock_shrink buf1 _)
      · exact hsame.trans (sameBlock_shrink buf1 _)

end EspushW60x
