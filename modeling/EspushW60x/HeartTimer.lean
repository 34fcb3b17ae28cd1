import EspushW60x.ThreadRuns

/-!
# The heart timer never fires on dead state

From the start of the timer to its stop the thread runs the select loop. Everything the
loop frees it has allocated itself, after the state, the resource and its pipe, so these
stay as they were (`Connected`). Outside of the loop the timer is off.

Results:
* `keeps_waitLoop`: the select loop keeps `Connected`;
* `safe_nonblockWaitRecv`, `safe_cloudWaitForever`: one connection;
* `heart_timer_safe`: any number of sessions.
-/

namespace EspushW60x

open Lib LightprotoLemmas

namespace Interleaved

/-! ## While the timer runs -/

/-- What the timer reads. -/
def held (st : ConnectionState) (r : RecvResource) : List (Nat × Kind) :=
  [(st.addr, .connState), (r.addr, .recvResource), (r.writeFd, .writeFd)]

/-- The timer of `r` runs, and what it reads is live and older than the number `n`. -/
structure Connected (n : Nat) (st : ConnectionState) (r : RecvResource) (timer : Nat)
    (s : Shared) : Prop where
  state : s.conn.state = some st
  res : ∃ buf, s.conn.res = some { r with buffer := buf }
  started : s.started = [timer]
  holds : s.world.mem.heap.Holds n (held st r)

theorem Connected.heartSafe {n : Nat} {st : ConnectionState} {r : RecvResource} {timer : Nat}
    {s : Shared} (h : Connected n st r timer s) : HeartSafe s := by
  obtain ⟨buf, hres⟩ := h.res
  exact ⟨⟨st, h.state, h.holds.live _ (by simp [held])⟩,
    ⟨_, hres, h.holds.live _ (by simp [held]), h.holds.live _ (by simp [held])⟩⟩

/-- The timer writes to the pipe only. -/
theorem guarded_connected (n : Nat) (st : ConnectionState) (r : RecvResource) (timer : Nat) :
    Thread.Guarded heart HeartSafe (Connected n st r timer) where
  stable := by
    intro s h _
    have hmem : (heart.handler.run s).2.world.mem = s.world.mem := heartTimeout_mem s.world
    exact ⟨h.state, h.res, h.started, by rw [hmem]; exact h.holds⟩
  safe s h _ := h.heartSafe

/-- The blocks of the frame are not older than the number `n`. -/
structure FrameAbove (n : Nat) (f : Frame) : Prop where
  addr : n ≤ f.addr
  data : ∀ b, f.data = .dyn b → n ≤ b.addr

section Steps

variable {e : Env} {n : Nat} {st : ConnectionState} {r : RecvResource} {timer : Nat} {α : Type}
  {R : α → Prop}

theorem keeps_world {p : Prog World α}
    (h : ∀ w, w.mem.heap.Holds n (held st r) →
      (p.run w).2.mem.heap.Holds n (held st r) ∧ R (p.run w).1) :
    Thread.Keeps (Connected n st r timer) (liftM p) R :=
  .atomic fun s hs =>
    ⟨⟨hs.state, hs.res, hs.started, (h s.world hs.holds).1⟩, (h s.world hs.holds).2⟩

theorem keeps_mem {p : Prog Mem α}
    (h : ∀ m, m.heap.Holds n (held st r) →
      (p.run m).2.heap.Holds n (held st r) ∧ R (p.run m).1) :
    Thread.Keeps (Connected n st r timer) (liftM p) R :=
  keeps_world fun w hw => h w.mem hw

/-- A step that allocates and frees nothing. -/
theorem keeps_heap {p : Prog World α} (h : ∀ w, (p.run w).2.mem.heap = w.mem.heap) :
    Thread.Keeps (Connected n st r timer) (liftM p) fun _ => True :=
  keeps_world fun w hw => ⟨by rw [h]; exact hw, trivial⟩

theorem keeps_log {p : Prog Mem α} (h : ∀ m, (p.run m).2.heap = m.heap) :
    Thread.Keeps (Connected n st r timer) (liftM p) fun _ => True :=
  keeps_heap fun w => h w.mem

theorem keeps_pure (a : α) : Thread.Keeps (Connected n st r timer) (pure a) fun _ => True :=
  .pure trivial

theorem keeps_malloc (k : Kind) (size : Int) :
    Thread.Keeps (Connected n st r timer) (liftM (espushMalloc e k size))
      fun b => ∀ block, b = some block → n ≤ block.addr := by
  refine keeps_mem fun m hm => ?_
  rw [run_espushMalloc]
  split
  · refine ⟨hm.acquire k, ?_⟩
    rintro _ ⟨⟩
    exact hm.next
  · refine ⟨hm.refuse, ?_⟩
    rintro _ ⟨⟩

theorem keeps_free {addr : Nat} (h : n ≤ addr) :
    Thread.Keeps (Connected n st r timer) (liftM (espushFree addr)) fun _ => True :=
  keeps_mem fun _ hm => ⟨hm.release h, trivial⟩

/-! ### Frames -/

theorem keeps_mallocEmptyFrame (site : Site) (method : UInt8) :
    Thread.Keeps (Connected n st r timer) (liftM (mallocEmptyFrame e site method))
      fun f => ∀ frame, f = some frame → FrameAbove n frame := by
  refine keeps_mem fun m hm => ?_
  cases hg : e.grant m.heap.next (.frame site) sizeofFrame with
  | false =>
    simp only [mallocEmptyFrame, Prog.run_bind, run_espushMalloc, hg, Bool.false_eq_true, if_false,
      Prog.run_pure]
    refine ⟨hm.refuse, ?_⟩
    rintro _ ⟨⟩
  | true =>
    simp only [mallocEmptyFrame, Prog.run_bind, run_espushMalloc, hg, if_true, Prog.run_pure]
    refine ⟨hm.acquire _, ?_⟩
    rintro _ ⟨⟩
    exact ⟨hm.next, fun _ h => by cases h⟩

theorem above_store {d : Data} (h : ∀ b, d = .dyn b → n ≤ b.addr) (off : Nat) (bs : Bytes) :
    ∀ b, d.store off bs = .dyn b → n ≤ b.addr := by
  cases d with
  | null => exact h
  | static bytes =>
    rintro b ⟨⟩
  | dyn block =>
    rintro b ⟨⟩
    exact h block rfl

theorem keeps_deserializeFrame (site : Site) (inData : Bytes) (inLength : Nat) {out : Frame}
    (hout : FrameAbove n out) :
    Thread.Keeps (Connected n st r timer) (liftM (deserializeFrame e site inData inLength out))
      fun res => FrameAbove n res.2 := by
  refine keeps_mem fun m hm => ?_
  simp only [deserializeFrame, storeBody, Prog.run_bind, run_touch, Prog.run_ite, Prog.run_pure,
    run_espushMalloc]
  split
  · exact ⟨hm, hout⟩
  split
  · exact ⟨hm, hout⟩
  split
  · exact ⟨hm, hout.addr, above_store (above_store hout.data _ _) _ _⟩
  cases hg : e.grant m.heap.next (.body site) ((ofBe16 inData : Int) - 2) with
  | false =>
    simp only [Bool.false_eq_true, if_false, Prog.run_pure]
    refine ⟨hm.refuse, hout.addr, ?_⟩
    rintro _ ⟨⟩
  | true =>
    simp only [if_true, Prog.run_bind, run_touch, Prog.run_pure]
    have hfresh : ∀ b, Data.dyn (freshBlock e m.heap.next (ofBe16 inData - 2)) = .dyn b →
        n ≤ b.addr := by
      rintro _ ⟨⟩
      exact hm.next
    exact ⟨hm.acquire _, hout.addr, above_store (above_store hfresh _ _) _ _⟩

theorem keeps_freeFrame {f : Frame} (hf : FrameAbove n f) :
    Thread.Keeps (Connected n st r timer) (freeFrame f) fun _ => True := by
  have haddr : Thread.Keeps (Connected n st r timer) (liftM (espushFree f.addr)) fun _ => True :=
    keeps_free hf.addr
  simp only [freeFrame]
  cases hdata : f.data <;> cases f.dataFlag
  case dyn.dyn block => exact (keeps_free (hf.data block hdata)).bind fun _ _ => haddr
  all_goals exact (keeps_pure ()).bind fun _ _ => haddr

theorem heap_writeFrameBuf (f : Frame) (buf : Block) (w : World) :
    ((writeFrameBuf e f buf).run w).2.mem.heap = w.mem.heap := by
  simp only [writeFrameBuf, Prog.run_bind, Prog.run_ite, Prog.run_pure]
  split <;> rfl

theorem keeps_writeFrame (f : Frame) :
    Thread.Keeps (Connected n st r timer) (writeFrame e f) fun _ => True := by
  refine .ite (fun _ => keeps_pure _) fun _ => (keeps_malloc _ _).bind fun block hb => ?_
  cases block with
  | none => exact keeps_pure _
  | some buf =>
    refine (keeps_heap (heap_writeFrameBuf f buf)).bind fun _ _ => ?_
    exact (keeps_free (hb buf rfl)).bind fun _ _ => keeps_pure _

/-! ### Handlers -/

theorem keeps_writeLightprotoFrame (out : Lightproto) :
    Thread.Keeps (Connected n st r timer) (writeLightprotoFrame e out) fun _ => True := by
  refine (keeps_mallocEmptyFrame _ _).bind fun frame _ => ?_
  cases frame with
  | none => exact keeps_pure _
  | some f => exact (keeps_writeFrame _).bind fun _ _ => keeps_pure _

theorem heap_of_pinsOnly {w w' : World} (h : PinsOnly w w') : w'.mem.heap = w.mem.heap := by
  obtain ⟨_, _, rfl⟩ := h
  rfl

theorem keeps_deviceSetLineState (line : UInt8) (state : Int) :
    Thread.Keeps (Connected n st r timer) (liftM (deviceSetLineState e line state)) fun _ => True :=
  keeps_heap fun w => heap_of_pinsOnly (pinsOnly_deviceSetLineState e line state w)

theorem keeps_setLinesFrom (state : Int) (k i : Nat) :
    Thread.Keeps (Connected n st r timer) (setLinesFrom e state k i) fun _ => True := by
  induction k generalizing i with
  | zero => exact keeps_pure _
  | succ k ih => exact (keeps_deviceSetLineState _ _).bind fun _ _ => ih _

theorem keeps_handleUartBuffer (f : Frame) :
    Thread.Keeps (Connected n st r timer) (handleUartBuffer e f) fun _ => True := by
  refine .ite (fun _ => keeps_pure _) fun _ => .ite (fun _ => ?_) fun _ => .ite (fun _ => ?_)
    fun _ => .ite (fun _ => ?_) fun _ => keeps_pure _
  · refine (keeps_heap fun w => ?_).bind fun _ _ => keeps_writeLightprotoFrame _
    exact heap_of_pinsOnly (pinsOnly_deviceGetLinesState e w)
  · exact (keeps_deviceSetLineState _ _).bind fun _ _ => keeps_writeLightprotoFrame _
  · exact (keeps_setLinesFrom _ _ _).bind fun _ _ => keeps_writeLightprotoFrame _

theorem keeps_handleFrame (f : Frame) :
    Thread.Keeps (Connected n st r timer) (handleFrame e f) fun _ => True := by
  refine (keeps_heap fun _ => rfl).bind fun calls _ => (keeps_heap fun _ => rfl).bind fun _ _ => ?_
  refine .ite (fun _ => keeps_heap fun _ => rfl) fun _ => .ite (fun _ => keeps_heap fun _ => rfl)
    fun _ => .ite (fun _ => ?_) fun _ => .ite (fun _ => keeps_heap fun _ => rfl)
    fun _ => .ite (fun _ => keeps_heap fun _ => rfl) fun _ => keeps_pure _
  exact (keeps_handleUartBuffer f).bind fun _ _ => keeps_pure _

/-! ### The select loop -/

theorem keeps_handleBuffer (buf : Buffer) :
    Thread.Keeps (Connected n st r timer) (handleBuffer e buf) fun _ => True := by
  have hextract (m : Mem) : ((bufferTryExtract buf).run m).2.heap = m.heap := by
    obtain ⟨log, hrun⟩ := run_bufferTryExtract buf m
    rw [hrun]
  refine .ite (fun _ => keeps_pure _) fun _ => (keeps_log hextract).bind fun length _ =>
    .ite (fun _ => keeps_pure _) fun _ => (keeps_mallocEmptyFrame _ _).bind fun frame hframe => ?_
  cases frame with
  | none => exact keeps_pure _
  | some f =>
    refine (keeps_deserializeFrame _ _ _ (hframe f rfl)).bind fun res hres =>
      (keeps_log fun _ => rfl).bind fun buf _ => .ite (fun _ => ?_) fun _ => ?_
    · exact (keeps_freeFrame hres).bind fun _ _ => keeps_pure _
    · refine (keeps_handleFrame _).bind fun rc _ => .ite (fun _ => ?_) fun _ => keeps_pure _
      exact (keeps_freeFrame hres).bind fun _ _ => keeps_pure _

theorem keeps_asyncSockRecv (buf : Buffer) :
    Thread.Keeps (Connected n st r timer) (asyncSockRecv e buf) fun _ => True := by
  refine (keeps_heap fun _ => rfl).bind fun got _ => .ite (fun _ => keeps_pure _) fun _ =>
    .ite (fun _ => keeps_pure _) fun _ => (keeps_log fun m => ?_).bind fun added _ =>
    .ite (fun _ => keeps_pure _) fun _ => keeps_handleBuffer _
  simp only [bufferAddData]
  split <;> rfl

theorem keeps_asyncPipeRead :
    Thread.Keeps (Connected n st r timer) (asyncPipeRead e) fun _ => True :=
  (keeps_heap fun _ => rfl).bind fun _ _ => .ite (fun _ => keeps_pure _) fun _ =>
    .ite (fun _ => keeps_pure _) fun _ => (keeps_heap fun _ => rfl).bind fun _ _ => keeps_pure _

theorem keeps_selectHandle (buf : Buffer) (event : SelectEvent) :
    Thread.Keeps (Connected n st r timer) (selectHandle e buf event) fun _ => True := by
  cases event with
  | timeout => exact keeps_pure _
  | error => exact keeps_pure _
  | ready sock pipe =>
    refine .ite (fun _ => (keeps_asyncSockRecv _).bind fun got _ => ?_)
      (fun _ => (keeps_pure _).bind fun got _ => ?_) <;>
    refine .ite (fun _ => keeps_pure _) fun _ => .ite
      (fun _ => keeps_asyncPipeRead.bind fun rc _ => ?_)
      (fun _ => (keeps_pure _).bind fun rc _ => ?_) <;>
    exact .ite (fun _ => keeps_pure _) fun _ => keeps_pure _

/-- The loop does not move the resource. -/
theorem keeps_waitLoop (events : List SelectEvent) (buf : Buffer) :
    Thread.Keeps (Connected n st r timer) (waitLoop e events { r with buffer := buf })
      fun r' => ∃ buf, r' = { r with buffer := buf } := by
  induction events generalizing buf with
  | nil => exact .pure ⟨buf, rfl⟩
  | cons event events ih =>
    refine (keeps_selectHandle _ _).bind fun s _ => ?_
    refine (Thread.Keeps.atomic (fun s' hs' => ?_)).bind fun _ (_ : True) => ?_
    · exact ⟨⟨hs'.state, ⟨s.2, rfl⟩, hs'.started, hs'.holds⟩, trivial⟩
    · exact .ite (fun _ => .pure ⟨s.2, rfl⟩) fun _ => ih s.2

end Steps

/-! ## While the timer is off -/

theorem heart_off_iff {s : Shared} : heart.Off s ↔ s.started = [] := by
  simp [Interrupt.Off, heart]

section Off

variable {e : Env} {s : Shared} {α : Type}

theorem OverWorld.keeps_off {t : Thread Shared α} {p : Prog World α} (h : OverWorld t p) :
    Thread.Keeps heart.Off t fun _ => True :=
  h.keeps fun _ _ hoff => hoff

/-- An assignment to `conn`. -/
theorem keeps_off_modify {f : Shared → Shared} (h : ∀ s, (f s).started = s.started) :
    Thread.Keeps heart.Off (liftM (Prog.modify f)) fun _ => True :=
  .atomic fun s hoff => ⟨heart_off_iff.mpr ((h s).trans (heart_off_iff.mp hoff)), trivial⟩

theorem keeps_off_setConn (conn : EspushConnection) :
    Thread.Keeps heart.Off (liftM (setConn conn)) fun _ => True :=
  keeps_off_modify fun _ => rfl

theorem keeps_off_setSock (sock : Nat) :
    Thread.Keeps heart.Off (liftM (setSock sock)) fun _ => True :=
  keeps_off_modify fun _ => rfl

theorem keeps_off_setState (state : Option ConnectionState) :
    Thread.Keeps heart.Off (liftM (setState state)) fun _ => True :=
  keeps_off_modify fun _ => rfl

theorem keeps_off_setRes (res : Option RecvResource) :
    Thread.Keeps heart.Off (liftM (setRes res)) fun _ => True :=
  keeps_off_modify fun _ => rfl

theorem safe_off {t : Thread Shared α} (ht : Thread.Keeps heart.Off t fun _ => True)
    (hoff : heart.Off s) : Thread.Safe heart HeartSafe t (fun _ s' => heart.Off s') s :=
  (Thread.safe_of_keeps Thread.guarded_off ht hoff).mono fun _ _ h => h.1

/-- What `resource_free` does after it has stopped the timer. -/
theorem keeps_off_resource (r : RecvResource) :
    Thread.Keeps heart.Off
      (do
        resourcePipeDeinit r
        freeBuffer r.buffer
        espushFree r.addr : Thread Shared Unit)
      fun _ => True :=
  (over_bind_mem (over_resourcePipeDeinit r) fun _ => over_bind_mem (over_freeBuffer r.buffer)
    fun _ => over_atomic_mem (espushFree r.addr)).keeps_off

/-- The timer was never started. -/
theorem safe_resourceFree_off {r : RecvResource} (hheart : r.heart = none) (hoff : heart.Off s) :
    Thread.Safe heart HeartSafe (resourceFree r) (fun _ s' => heart.Off s') s := by
  simp only [resourceFree, hheart]
  exact safe_off (keeps_off_resource r) hoff

/-- The timer is stopped before anything it reads is freed. -/
theorem safe_resourceFree {n : Nat} {st : ConnectionState} {r : RecvResource} {timer : Nat}
    (hheart : r.heart = some timer) (hconn : Connected n st r timer s) (buf : Buffer) :
    Thread.Safe heart HeartSafe (resourceFree { r with buffer := buf })
      (fun _ s' => heart.Off s') s := by
  have hstop : Thread.Safe heart HeartSafe (resourceHeartTimerDeinit timer)
      (fun _ s' => heart.Off s') s := by
    refine (Thread.safe_atomic (guarded_connected n st r timer) (fun _ => Thread.guarded_off)
      (fun s hs => ?_) hconn).bind fun _ s' hoff => ?_
    · rw [heart_off_iff]
      show s.started.erase timer = []
      rw [hs.started, List.erase_cons_head]
    · exact safe_off (over_atomic_mem _).keeps_off hoff
  simp only [resourceFree, hheart]
  exact hstop.bind fun _ s' hoff => safe_off (keeps_off_resource { r with buffer := buf }) hoff

/-! ## One connection -/

/-- What the timer reads is live once the resource is made. -/
theorem live_held {st : ConnectionState} {r : RecvResource} {l l' : Ledger Kind}
    (hown : OwnedResource l r l') (hlive : (st.addr, Kind.connState) ∈ l.live) :
    ∀ p ∈ held st r, p ∈ l'.live := by
  intro p hp
  rw [hown.heap]
  simp only [held, List.mem_cons, List.not_mem_nil, or_false, hown.addr, hown.writeFd] at hp
  simp only [Ledger.live_acquire, Ledger.next_acquire, List.mem_cons]
  rcases hp with rfl | rfl | rfl
  · simp [hlive]
  · simp
  · simp

/-- The timer is created and started, or the connection ends before that. -/
theorem safe_resourceHeartTimerInit {st : ConnectionState} {r : RecvResource}
    (hoff : heart.Off s) (hstate : s.conn.state = some st)
    (hlive : ∀ p ∈ held st r, p ∈ s.world.mem.heap.live) :
    Thread.Safe heart HeartSafe (resourceHeartTimerInit e r)
      (fun t s' => t = (-1, r) ∧ heart.Off s' ∨ ∃ n timer, t = (0, { r with heart := some timer }) ∧
        Connected n st { r with heart := some timer } timer s') s := by
  refine (Thread.safe_of_off (over_atomic_mem (openHandle e .timer)).keeps_off hoff).bind ?_
  rintro handle s₁ ⟨hrun, hoff₁⟩
  rw [run_stepMem, run_liftMem, run_openHandle] at hrun
  cases hg : e.grant s.world.mem.heap.next .timer 0 with
  | false =>
    rw [hg] at hrun
    cases hrun
    exact (Thread.safe_of_keeps (R := (· = (-1, r))) Thread.guarded_off (.pure rfl) hoff₁).mono
      fun t s' h => .inl ⟨h.2, h.1⟩
  | true =>
    rw [hg, if_pos rfl] at hrun
    cases hrun
    refine (Thread.safe_of_off (keeps_off_setRes _) hoff₁).bind ?_
    rintro _ s₂ ⟨hrun, hoff₂⟩
    cases hrun
    refine (Thread.safe_atomic_of_off (fun _ => guarded_connected s.world.mem.heap.next st
      { r with heart := some s.world.mem.heap.next } s.world.mem.heap.next) hoff₂ ?_).bind ?_
    · refine ⟨hstate, ⟨r.buffer, rfl⟩, ?_, ?_⟩
      · exact congrArg (s.world.mem.heap.next :: ·) (heart_off_iff.mp hoff)
      · exact ⟨fun p hp => List.mem_cons_of_mem _ (hlive p hp),
          fun p hp => s.world.mem.heap.bounded p (hlive p hp), Nat.le_succ _⟩
    · intro _ s₃ hconn
      exact (Thread.safe_of_keeps (R := (· = (0, { r with heart := some s.world.mem.heap.next })))
        (guarded_connected _ _ _ _) (.pure rfl) hconn).mono
        fun t s' h => .inr ⟨_, _, h.2, h.1⟩

theorem safe_nonblockWaitRecv (events : List SelectEvent) {st : ConnectionState}
    (hoff : heart.Off s) (hstate : s.conn.state = some st)
    (hlive : (st.addr, Kind.connState) ∈ s.world.mem.heap.live) :
    Thread.Safe heart HeartSafe (nonblockWaitRecv e events) (fun _ s' => heart.Off s') s := by
  have hend : Thread.Keeps heart.Off
      (do
        setRes none
        return -1 : Thread Shared Int)
      fun _ => True :=
    (keeps_off_setRes none).bind fun _ _ => .pure trivial
  refine (Thread.safe_of_off (over_resourceMalloc (e := e)).keeps_off hoff).bind ?_
  rintro res s₁ ⟨hrun, hoff₁⟩
  rw [over_resourceMalloc.run, EspushW60x.run_liftMem] at hrun
  have hres := resourceMalloc_result (e := e) (m := s.world.mem)
  generalize (EspushW60x.resourceMalloc e).run s.world.mem = q at hrun hres
  cases hres with
  | failed heap =>
    cases hrun
    exact safe_off hend hoff₁
  | made r heap hown hheart =>
    cases hrun
    -- nothing else runs before the timer is started, so each state is known
    refine (Thread.safe_of_off (keeps_off_setRes _) hoff₁).bind ?_
    rintro _ s₂ ⟨hrun, hoff₂⟩
    cases hrun
    refine (Thread.safe_of_off (over_atomic _).keeps_off hoff₂).bind ?_
    rintro _ s₃ ⟨hrun, hoff₃⟩
    cases hrun
    refine (safe_resourceHeartTimerInit hoff₃ hstate ?_).bind ?_
    · exact live_held hown hlive
    · rintro t s₄ (⟨rfl, hoff₄⟩ | ⟨n, timer, rfl, hconn⟩)
      · rw [if_pos (show (-1 : Int) < 0 by decide)]
        exact (safe_resourceFree_off hheart hoff₄).bind fun _ s' hoff' => safe_off hend hoff'
      · -- from the start of the timer to its stop, only `Connected` is known
        rw [if_neg (Int.lt_irrefl 0)]
        refine (Thread.safe_of_keeps (guarded_connected _ _ _ _)
          (keeps_waitLoop events r.buffer) hconn).bind ?_
        rintro _ s₅ ⟨hconn₅, buf, rfl⟩
        exact (safe_resourceFree rfl hconn₅ buf).bind fun _ s' hoff' => safe_off hend hoff'

theorem safe_cloudWaitForever (events : List SelectEvent) (hoff : heart.Off s) :
    Thread.Safe heart HeartSafe (cloudWaitForever e events) (fun _ s' => heart.Off s') s := by
  refine (Thread.safe_of_off (over_stateConnectionMalloc (e := e)).keeps_off hoff).bind ?_
  rintro state s₁ ⟨hrun, hoff₁⟩
  rw [over_stateConnectionMalloc.run, EspushW60x.run_liftMem] at hrun
  have hres := stateConnectionMalloc_result (e := e) (m := s.world.mem)
  generalize (EspushW60x.stateConnectionMalloc e).run s.world.mem = q at hrun hres
  cases hres with
  | failed heap =>
    cases hrun
    exact safe_off ((keeps_off_setState none).bind fun _ _ => .pure trivial) hoff₁
  | made =>
    cases hrun
    refine (Thread.safe_of_off (keeps_off_setState _) hoff₁).bind ?_
    rintro _ s₂ ⟨hrun, hoff₂⟩
    cases hrun
    refine (safe_nonblockWaitRecv events hoff₂ rfl ?_).bind fun rc s₃ hoff₃ => ?_
    · exact List.mem_cons_of_mem _ List.mem_cons_self
    · exact safe_off ((over_stateConnectionFree _).keeps_off.bind fun _ _ =>
        (keeps_off_setState none).bind fun _ _ => .pure trivial) hoff₃

/-! ## Sessions -/

theorem safe_sockTaskConnected (o : Outside) (sock : Nat) (hoff : heart.Off s) :
    Thread.Safe heart HeartSafe (sockTaskConnected e o sock) (fun _ s' => heart.Off s') s := by
  have hclose (rc : Int) : Thread.Keeps heart.Off
      (do
        espushFree sock
        return rc : Thread Shared Int)
      fun _ => True :=
    (over_bind (over_atomic (liftM (espushFree sock))) fun _ => over_pure rc).keeps_off
  have hlogin : Thread.Keeps heart.Off (liftM (cloudAuthorization e o.mac)) fun _ => True :=
    .atomic fun s hoff => ⟨hoff, trivial⟩
  refine (safe_off hlogin hoff).bind fun a s₁ hoff₁ => ?_
  split
  · exact safe_off (hclose _) hoff₁
  · refine (safe_off (over_atomic sendDevInfo).keeps_off hoff₁).bind fun d s₂ hoff₂ => ?_
    split
    · exact safe_off (hclose _) hoff₂
    · exact (safe_cloudWaitForever _ hoff₂).bind fun rc s₃ hoff₃ => safe_off (hclose _) hoff₃

theorem safe_sockTask (o : Outside) (hoff : heart.Off s) :
    Thread.Safe heart HeartSafe (sockTask e o) (fun _ s' => heart.Off s') s := by
  have hreturn (rc : Int) {s : Shared} (hoff : heart.Off s) :
      Thread.Safe heart HeartSafe (pure rc) (fun _ s' => heart.Off s') s :=
    safe_off (.pure trivial) hoff
  refine (safe_off (keeps_off_setConn _) hoff).bind fun _ s₁ hoff₁ => ?_
  refine (safe_off (over_atomic_mem _).keeps_off hoff₁).bind fun b s₂ hoff₂ => ?_
  split
  · exact hreturn _ hoff₂
  · split
    next => exact hreturn _ hoff₂
    next server =>
      refine (safe_off (over_atomic_mem _).keeps_off hoff₂).bind fun c s₃ hoff₃ => ?_
      split
      next => exact hreturn _ hoff₃
      next sock _ =>
        exact (safe_off (keeps_off_setSock sock) hoff₃).bind fun _ s₄ hoff₄ =>
          safe_sockTaskConnected o sock hoff₄

theorem safe_espushTask (rounds : List (Outside × List Delivery)) (hoff : heart.Off s) :
    Thread.Safe heart HeartSafe (espushTask e rounds) (fun _ s' => heart.Off s') s := by
  induction rounds generalizing s with
  | nil => exact safe_off (.pure trivial) hoff
  | cons round rounds ih =>
    obtain ⟨o, inbox⟩ := round
    refine (safe_off (over_atomic _).keeps_off hoff).bind fun _ s₁ hoff₁ => ?_
    refine (safe_sockTask o hoff₁).bind fun rc s₂ hoff₂ => ?_
    exact (ih hoff₂).bind fun delays s₃ hoff₃ => safe_off (.pure trivial) hoff₃

end Off

end Interleaved

/-- The heart timer never fires on dead state. -/
theorem heart_timer_safe (e : Env) (rounds : List (Outside × List Delivery)) (w : World)
    (conn : EspushConnection) (t : Thread Shared (List Nat)) (s : Shared)
    (hreach : Thread.Reaches heart (Interleaved.espushTask e rounds) ⟨w, conn, []⟩ t s)
    (hfires : heart.enabled s) : HeartSafe s := by
  have hoff : heart.Off ⟨w, conn, []⟩ := Interleaved.heart_off_iff.mpr rfl
  exact (Interleaved.safe_espushTask rounds hoff t s hreach).1 hfires

/-- A server that takes the connection. -/
def openServer : Outside where
  sessionCreated := true
  get := 200
  response := 1
  json := some fun _ => some ⟨some [], 0⟩
  dns := fun _ _ => some 0
  connect := fun _ _ => 0
  events := [.select (.ready false true)]
  mac := fun _ => 0
  staleAddr := ⟨List.replicate maxHostString 0, 0, 0⟩

/-- The timer has just been started by a session whose login was accepted. -/
theorem heart_timer_safe_first_beat :
    HeartSafe ((Interleaved.espushTask Env.benign [(openServer, [.segment [0, 3, 1, 0, 0]])]).steps
      21 ⟨World.start [], ⟨0, 0, none, none⟩, []⟩).2 := by
  refine heart_timer_safe Env.benign [(openServer, [.segment [0, 3, 1, 0, 0]])] (World.start [])
    ⟨0, 0, none, none⟩ _ _ (Thread.Reaches.start.steps 21) ?_
  show Shared.started _ ≠ []
  decide +kernel

end EspushW60x
