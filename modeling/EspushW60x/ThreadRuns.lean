import EspushW60x.Threads

/-!
# The threads without the timer

A thread that the timer does not interrupt does what the function of the same name does.

Results:
* `over_handleBuffer`, `over_resourceMalloc` and the like: functions that do not touch
  `conn` are sequences of steps over the world;
* `run_cloudWaitForever`, `run_espushTask`: a connection, and the whole task.
-/

namespace EspushW60x

open Lib

namespace Interleaved

/-! ## Sequences of steps over the world -/

/-- The steps of `t` are steps over the world, and together they do `p`. -/
inductive OverWorld {α : Type} : Thread Shared α → Prog World α → Prop
  | pure (a : α) : OverWorld (.pure a) (pure a)
  | step {β : Type} (p : Prog World β) {next : β → Thread Shared α} {g : β → Prog World α} :
      (∀ b, OverWorld (next b) (g b)) → OverWorld (.step (liftM p) next) (p >>= g)

section OverWorld

variable {e : Env} {α β : Type}

theorem OverWorld.run {t : Thread Shared α} {p : Prog World α} (h : OverWorld t p) (s : Shared) :
    t.run s = ((p.run s.world).1, { s with world := (p.run s.world).2 }) := by
  induction h generalizing s with
  | pure a => rfl
  | step p _ ih => exact ih _ _

/-- An assertion that does not look at the world is kept. -/
theorem OverWorld.keeps {t : Thread Shared α} {p : Prog World α} (h : OverWorld t p)
    {P : Shared → Prop} (hP : ∀ s w, P s → P { s with world := w }) :
    Thread.Keeps P t fun _ => True := by
  induction h with
  | pure a => exact .pure trivial
  | step p _ ih => exact .step (fun _ => True) (fun s hs => ⟨hP s _ hs, trivial⟩) fun b _ => ih b

theorem over_pure (a : α) : OverWorld (pure a) (pure a) := .pure a

theorem over_pure_mem (a : α) : OverWorld (pure a) (liftM (pure a : Prog Mem α)) := .pure a

theorem over_atomic (p : Prog World α) : OverWorld (liftM p) p := .step p .pure

theorem over_atomic_mem (p : Prog Mem α) : OverWorld (liftM p) (liftM p) := .step _ .pure

theorem over_bind {t : Thread Shared α} {f : α → Thread Shared β} {p : Prog World α}
    {g : α → Prog World β} (ht : OverWorld t p) (hf : ∀ a, OverWorld (f a) (g a)) :
    OverWorld (t >>= f) (p >>= g) := by
  induction ht with
  | pure a => exact hf a
  | step p _ ih => exact .step p fun b => ih b

theorem over_bind_mem {t : Thread Shared α} {f : α → Thread Shared β} {p : Prog Mem α}
    {g : α → Prog Mem β} (ht : OverWorld t (liftM p)) (hf : ∀ a, OverWorld (f a) (liftM (g a))) :
    OverWorld (t >>= f) (liftM (p >>= g)) :=
  over_bind ht hf

theorem over_ite {c : Prop} [Decidable c] {t u : Thread Shared α} {p q : Prog World α}
    (ht : OverWorld t p) (hu : OverWorld u q) :
    OverWorld (if c then t else u) (if c then p else q) := by
  split
  · exact ht
  · exact hu

/-! ## Frames and handlers -/

theorem over_freeFrame (f : Frame) : OverWorld (freeFrame f) (freeFrame f) := by
  simp only [freeFrame]
  cases f.data <;> cases f.dataFlag
  case dyn.dyn => exact over_bind (over_atomic_mem _) fun _ => over_atomic_mem _
  all_goals exact over_bind (over_pure _) fun _ => over_atomic_mem _

theorem over_writeFrame (f : Frame) :
    OverWorld (writeFrame e f) (writeFrame e f) := by
  refine over_ite (over_pure _) (over_bind (over_atomic _) fun block => ?_)
  cases block with
  | none => exact over_pure _
  | some buf =>
    exact over_bind (over_atomic _) fun _ => over_bind (over_atomic _) fun _ => over_pure _

theorem over_writeLightprotoFrame (out : Lightproto) :
    OverWorld (writeLightprotoFrame e out) (writeLightprotoFrame e out) := by
  refine over_bind (over_atomic _) fun frame => ?_
  cases frame with
  | none => exact over_pure _
  | some f => exact over_bind (over_writeFrame _) fun _ => over_pure _

theorem over_setLinesFrom (state : Int) (n i : Nat) :
    OverWorld (setLinesFrom e state n i) (setLinesFrom e state n i) := by
  induction n generalizing i with
  | zero => exact over_pure _
  | succ n ih => exact over_bind (over_atomic _) fun _ => ih _

theorem over_handleUartBuffer (f : Frame) :
    OverWorld (handleUartBuffer e f) (handleUartBuffer e f) := by
  refine over_ite (over_pure _) (over_ite ?_ (over_ite ?_ (over_ite ?_ (over_pure _))))
  · exact over_bind (over_atomic _) fun _ => over_writeLightprotoFrame _
  · exact over_bind (over_atomic _) fun _ => over_writeLightprotoFrame _
  · exact over_bind (over_setLinesFrom _ _ _) fun _ => over_writeLightprotoFrame _

theorem over_handleFrame (f : Frame) :
    OverWorld (handleFrame e f) (handleFrame e f) := by
  refine over_bind (over_atomic _) fun calls => over_bind (over_atomic _) fun _ => ?_
  refine over_ite (over_atomic _) (over_ite (over_atomic _) (over_ite ?_ (over_ite (over_atomic _)
    (over_ite (over_atomic _) (over_pure _)))))
  exact over_bind (over_handleUartBuffer _) fun _ => over_pure _

theorem over_handleBuffer (buf : Buffer) :
    OverWorld (handleBuffer e buf) (handleBuffer e buf) := by
  refine over_ite (over_pure _) (over_bind (over_atomic _) fun length =>
    over_ite (over_pure _) (over_bind (over_atomic _) fun frame => ?_))
  cases frame with
  | none => exact over_pure _
  | some f =>
    refine over_bind (over_atomic _) fun r => over_bind (over_atomic _) fun buf => over_ite ?_ ?_
    · exact over_bind (over_freeFrame _) fun _ => over_pure _
    · refine over_bind (over_handleFrame _) fun rc => over_ite ?_ (over_pure _)
      exact over_bind (over_freeFrame _) fun _ => over_pure _

theorem over_asyncSockRecv (buf : Buffer) :
    OverWorld (asyncSockRecv e buf) (asyncSockRecv e buf) := by
  refine over_bind (over_atomic _) fun r => over_ite (over_pure _) (over_ite (over_pure _) ?_)
  exact over_bind (over_atomic _) fun a => over_ite (over_pure _) (over_handleBuffer _)

theorem over_asyncPipeRead :
    OverWorld (asyncPipeRead e) (asyncPipeRead e) := by
  refine over_bind (over_atomic _) fun r => over_ite (over_pure _) (over_ite (over_pure _) ?_)
  exact over_bind (over_atomic _) fun _ => over_pure _

theorem over_selectHandle (buf : Buffer) (event : SelectEvent) :
    OverWorld (selectHandle e buf event) (selectHandle e buf event) := by
  cases event with
  | timeout => exact over_pure _
  | error => exact over_pure _
  | ready sock pipe =>
    refine over_ite (over_bind (over_asyncSockRecv _) fun r => ?_)
      (over_bind (over_pure _) fun r => ?_) <;>
    refine over_ite (over_pure _) (over_ite (over_bind over_asyncPipeRead fun rc => ?_)
      (over_bind (over_pure _) fun rc => ?_)) <;>
    exact over_ite (over_pure _) (over_pure _)

/-! ### Making and freeing -/

theorem over_mallocBuffer (len : Nat) :
    OverWorld (mallocBuffer e len) (liftM (mallocBuffer e len)) := by
  refine over_bind_mem (over_atomic_mem _) fun out => ?_
  cases out with
  | none => exact over_pure_mem _
  | some out =>
    refine over_bind_mem (over_atomic_mem _) fun buffer => ?_
    cases buffer with
    | none => exact over_bind_mem (over_atomic_mem _) fun _ => over_pure_mem _
    | some buffer => exact over_pure_mem _

theorem over_freeBuffer (buf : Buffer) :
    OverWorld (freeBuffer buf) (liftM (freeBuffer buf)) :=
  over_bind_mem (over_atomic_mem _) fun _ => over_atomic_mem _

theorem over_stateConnectionMalloc :
    OverWorld (stateConnectionMalloc e) (liftM (stateConnectionMalloc e)) := by
  refine over_bind_mem (over_atomic_mem _) fun out => ?_
  cases out with
  | none => exact over_pure_mem _
  | some out =>
    refine over_bind_mem (over_atomic_mem _) fun lock => ?_
    cases lock with
    | none => exact over_bind_mem (over_atomic_mem _) fun _ => over_pure_mem _
    | some lock => exact over_pure_mem _

theorem over_stateConnectionFree (st : ConnectionState) :
    OverWorld (stateConnectionFree st) (liftM (stateConnectionFree st)) :=
  over_bind_mem (over_atomic_mem _) fun _ => over_atomic_mem _

theorem over_resourcePipeInit :
    OverWorld (resourcePipeInit e) (liftM (resourcePipeInit e)) := by
  refine over_bind_mem (over_atomic_mem _) fun p => ?_
  cases p with
  | none => exact over_pure_mem _
  | some p =>
    refine over_bind_mem (over_atomic_mem _) fun readFd => ?_
    cases readFd with
    | none => exact over_bind_mem (over_atomic_mem _) fun _ => over_pure_mem _
    | some readFd =>
      refine over_bind_mem (over_atomic_mem _) fun writeFd => ?_
      cases writeFd with
      | none =>
        exact over_bind_mem (over_atomic_mem _) fun _ => over_bind_mem (over_atomic_mem _) fun _ =>
          over_pure_mem _
      | some writeFd => exact over_pure_mem _

theorem over_resourcePipeDeinit (r : RecvResource) :
    OverWorld (resourcePipeDeinit r) (liftM (resourcePipeDeinit r)) :=
  over_bind_mem (over_atomic_mem _) fun _ => over_bind_mem (over_atomic_mem _) fun _ =>
    over_atomic_mem _

theorem over_resourceMalloc :
    OverWorld (resourceMalloc e) (liftM (resourceMalloc e)) := by
  refine over_bind_mem (over_atomic_mem _) fun out => ?_
  cases out with
  | none => exact over_pure_mem _
  | some out =>
    refine over_bind_mem (over_mallocBuffer _) fun buffer => ?_
    cases buffer with
    | none => exact over_bind_mem (over_atomic_mem _) fun _ => over_pure_mem _
    | some buffer =>
      refine over_bind_mem over_resourcePipeInit fun p => ?_
      cases p with
      | none =>
        refine over_bind_mem (over_freeBuffer _) fun _ => ?_
        exact over_bind_mem (over_atomic_mem _) fun _ => over_pure_mem _
      | some p => exact over_pure_mem _

/-! ### A connection -/

/-- A step over the world leaves the rest as it is. -/
theorem run_liftWorld (p : Prog World α) (s : Shared) :
    (liftM p : Prog Shared α).run s = ((p.run s.world).1, { s with world := (p.run s.world).2 }) := by
  rfl

theorem run_liftMem (p : Prog Mem α) (s : Shared) :
    (liftM p : Prog Shared α).run s =
      ((p.run s.world.mem).1,
        { s with world := { s.world with mem := (p.run s.world.mem).2 } }) := by
  rfl

theorem run_stepWorld (p : Prog World α) (s : Shared) :
    (liftM p : Thread Shared α).run s = (liftM p : Prog Shared α).run s := by
  rfl

theorem run_stepMem (p : Prog Mem α) (s : Shared) :
    (liftM p : Thread Shared α).run s = (liftM p : Prog Shared α).run s := by
  rfl

/-- The loop leaves in `conn` the resource that it returns. -/
theorem run_waitLoop (events : List SelectEvent) {r : RecvResource} {s : Shared}
    (hres : s.conn.res = some r) :
    (waitLoop e events r).run s =
      let l := (EspushW60x.waitLoop e (events.map .select) r).run s.world
      (l.1, { s with world := l.2, conn := { s.conn with res := some l.1 } }) := by
  induction events generalizing r s with
  | nil =>
    rw [waitLoop, List.map_nil, EspushW60x.waitLoop, Thread.run_pure, Prog.run_pure]
    simp only [← hres]
  | cons event events ih =>
    rw [waitLoop, List.map_cons, EspushW60x.waitLoop, Thread.run_bind, Prog.run_bind,
      (over_selectHandle r.buffer event).run]
    generalize (selectHandle e r.buffer event).run s.world = q
    rw [Thread.run_bind, Thread.run_ite, Prog.run_ite]
    split
    · rfl
    · exact ih rfl

/-- Freeing a resource stops its timer. -/
theorem run_resourceFree (r : RecvResource) (s : Shared) :
    (resourceFree r).run s =
      ((), { s with
        world := ((liftM (EspushW60x.resourceFree r) : Prog World Unit).run s.world).2
        started := match r.heart with
          | none => s.started
          | some heart => s.started.erase heart }) := by
  simp only [resourceFree, EspushW60x.resourceFree]
  cases r.heart <;> rfl

/-- `_nonblock_wait_recv` stops the timer that it started. -/
theorem run_nonblockWaitRecv (events : List SelectEvent) (s : Shared) :
    (nonblockWaitRecv e events).run s =
      let l := (EspushW60x.nonblockWaitRecv e (events.map .select) s.conn).run s.world
      (l.1.1, { s with world := l.2, conn := l.1.2 }) := by
  rw [nonblockWaitRecv, EspushW60x.nonblockWaitRecv, Thread.run_bind, Prog.run_bind,
    over_resourceMalloc.run, EspushW60x.run_liftMem]
  have hresult := resourceMalloc_result (e := e) (m := s.world.mem)
  generalize (resourceMalloc e).run s.world.mem = q at hresult
  cases hresult with
  | failed => rfl
  | made r heap _ hheart hcap =>
    simp only [Thread.run_bind, Prog.run_bind, Thread.run_atomic, run_stepWorld, run_liftWorld,
      Prog.run_modify, setRes, resourceHeartTimerInit, EspushW60x.resourceHeartTimerInit,
      run_stepMem, run_liftMem, EspushW60x.run_liftMem]
    generalize (openHandle e .timer).run _ = h
    obtain ⟨_ | heart, m⟩ := h
    · simp only [Thread.run_pure, Prog.run_pure, Thread.run_bind, Prog.run_bind,
        show (-1 : Int) < 0 by decide, if_true, run_resourceFree, hheart, Thread.run_atomic,
        EspushW60x.run_liftMem, Prog.run_modify]
    · have hloop := waitLoop_result (e := e) (events.map .select)
        (r := { r with heart := some heart }) (w := ⟨m, s.world.inbox, s.world.sends,
          s.world.wire, [], s.world.pins, s.world.handled⟩) hcap
      obtain ⟨⟨buf, _, hres⟩, _⟩ := hloop
      simp only [Thread.run_pure, Prog.run_pure, Thread.run_bind, Prog.run_bind, Int.lt_irrefl,
        if_false, Thread.run_atomic, Prog.run_modify, timerStart, run_waitLoop, run_resourceFree,
        hres, List.erase_cons_head, EspushW60x.run_liftMem]

/-- Without the timer, a connection is what `cloudWaitForever` says, and leaves the timers
as they were. -/
theorem run_cloudWaitForever (events : List SelectEvent) (s : Shared) :
    (cloudWaitForever e events).run s =
      let l := (EspushW60x.cloudWaitForever e (events.map .select) s.conn).run s.world
      (l.1.1, { s with world := l.2, conn := l.1.2 }) := by
  rw [cloudWaitForever, EspushW60x.cloudWaitForever, Thread.run_bind, Prog.run_bind,
    over_stateConnectionMalloc.run, EspushW60x.run_liftMem]
  generalize (stateConnectionMalloc e).run s.world.mem = q
  obtain ⟨_ | st, m⟩ := q
  · rfl
  · simp only [Thread.run_bind, Prog.run_bind, Thread.run_atomic, setState, Prog.run_modify,
      run_nonblockWaitRecv]
    rfl

/-- The same answers from outside, and the timer never expires. -/
def heartless (o : Outside) : Outside :=
  { o with events := (selectEvents o.events).map .select }

theorem dnsQueryFrom_heartless (o : Outside) (name : Bytes) (n i : Nat) :
    dnsQueryFrom (heartless o) name n i = dnsQueryFrom o name n i := by
  induction n generalizing i with
  | zero => rfl
  | succ n ih =>
    rw [dnsQueryFrom, dnsQueryFrom, ih]
    rfl

theorem connectFrom_heartless (o : Outside) (servAddr : Nat × Nat) (n i : Nat) (rc : Int) :
    connectFrom e (heartless o) servAddr n i rc = connectFrom e o servAddr n i rc := by
  induction n generalizing i rc with
  | zero => rfl
  | succ n ih =>
    simp only [connectFrom, ih]
    rfl

theorem run_sockTaskConnected (o : Outside) (s : Shared) :
    (sockTaskConnected e o s.conn.sock).run s =
      let l := (EspushW60x.sockTaskConnected e (heartless o) s.conn).run s.world
      (l.1.1, { s with world := l.2, conn := l.1.2 }) := by
  have hauth : (cloudAuthorization e o.mac).run s =
      let r := (EspushW60x.cloudAuthorization e (heartless o).mac s.conn).run s.world
      (r.1.1, { s with world := r.2, conn := r.1.2 }) := by rfl
  rw [sockTaskConnected, EspushW60x.sockTaskConnected, Thread.run_bind, Prog.run_bind,
    Thread.run_atomic, hauth]
  generalize (EspushW60x.cloudAuthorization e (heartless o).mac s.conn).run s.world = a
  simp only [Thread.run_ite, Prog.run_ite]
  split
  · rfl
  · simp only [sendDevInfo, Thread.run_bind, Prog.run_bind, run_stepWorld, run_liftWorld,
      Prog.run_pure, Int.lt_irrefl, if_false, run_cloudWaitForever]
    rfl

theorem run_sockTask (o : Outside) (s : Shared) :
    (sockTask e o).run s =
      let l := (EspushW60x.sockTask e (heartless o)).run s.world
      (l.1.1, { s with world := l.2, conn := l.1.2 }) := by
  have hboot : bootstrap (heartless o) (heartless o).staleAddr = bootstrap o o.staleAddr := by rfl
  simp only [sockTask, EspushW60x.sockTask, Thread.run_bind, Thread.run_atomic, setConn,
    Prog.run_modify, Prog.run_bind, run_stepMem, run_liftMem, EspushW60x.run_liftMem, hboot,
    dnsQueryByname, dnsQueryFrom_heartless, createSocketAndConnect, connectFrom_heartless]
  generalize (bootstrap o o.staleAddr).run s.world.mem = b
  simp only [Thread.run_ite, Prog.run_ite]
  split
  · rfl
  · generalize dnsQueryFrom o (cString b.1.2.host) dnsQueryTimes 0 = server
    cases server with
    | none => rfl
    | some server =>
      simp only [Thread.run_bind, Prog.run_bind, run_stepMem, run_liftMem, EspushW60x.run_liftMem]
      generalize (connectFrom e o (server, b.1.2.port) 5 0 (-1)).run _ = c
      obtain ⟨⟨rc, _ | sock⟩, m⟩ := c
      · rfl
      · exact run_sockTaskConnected o _

/-- Without the timer, `espush_task` is what `espushTask` says, in rounds in which the timer
never expires. -/
theorem run_espushTask (rounds : List (Outside × List Delivery)) (s : Shared) :
    ((espushTask e rounds).run s).1 =
        ((EspushW60x.espushTask e (rounds.map fun r => (heartless r.1, r.2))).run s.world).1 ∧
      ((espushTask e rounds).run s).2.world =
        ((EspushW60x.espushTask e (rounds.map fun r => (heartless r.1, r.2))).run s.world).2 ∧
      ((espushTask e rounds).run s).2.started = s.started := by
  induction rounds generalizing s with
  | nil => exact ⟨rfl, rfl, rfl⟩
  | cons round rounds ih =>
    obtain ⟨o, inbox⟩ := round
    simp only [espushTask, EspushW60x.espushTask, List.map_cons, Thread.run_bind, Prog.run_bind,
      run_stepWorld, run_liftWorld, Prog.run_modify, run_sockTask, Thread.run_pure, Prog.run_pure]
    generalize (EspushW60x.sockTask e (heartless o)).run _ = r
    obtain ⟨hdelays, hworld, hstarted⟩ := ih ⟨r.2, r.1.2, s.started⟩
    exact ⟨by rw [hdelays], hworld, hstarted⟩

end OverWorld

end Interleaved

end EspushW60x
