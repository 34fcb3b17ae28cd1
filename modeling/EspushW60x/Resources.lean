import EspushW60x.Session
import EspushW60x.HeapBalance

/-!
# The resources of a connection

`cloud_wait_forever` and `_nonblock_wait_recv` make what a connection needs, run the
select loop and free it all again. Each partial failure frees what was made before.

Results:
* `resourceMalloc_result`, `resourceFree_heap`: what `resource_malloc` makes is what
  `resource_free` frees;
* `waitLoop_result`: any number of events leaves behind frames of messages and
  nothing else;
* `cloudWaitForever_result`: so does a whole connection.
-/

namespace EspushW60x

open Lib HeapBalanceLemmas

/-! ## `connection_state` -/

/-- The ways a call of `state_connection_malloc` ends. -/
inductive StateMallocResult (m : Mem) : Option ConnectionState × Mem → Prop
  | failed (heap : Ledger Kind) : m.heap.Extends heap [] →
      StateMallocResult m (none, { m with heap := heap })
  | made : StateMallocResult m
      (some ⟨m.heap.next, m.heap.next + 1⟩,
        { m with heap := (m.heap.acquire .connState).acquire .mutex })

theorem stateConnectionMalloc_result {e : Env} {m : Mem} :
    StateMallocResult m ((stateConnectionMalloc e).run m) := by
  have hrefl := Ledger.Extends.refl m.heap
  cases hs : e.grant m.heap.next .connState sizeofConnectionState with
  | false =>
    have hrun : (stateConnectionMalloc e).run m = (none, { m with heap := m.heap.refuse }) := by
      simp only [stateConnectionMalloc, lift_mem, Prog.run_bind, run_espushMalloc, hs, Bool.false_eq_true,
        if_false, Prog.run_pure]
    rw [hrun]
    exact .failed _ hrefl.refuse
  | true =>
    cases hl : e.grant (m.heap.next + 1) .mutex 0 with
    | false =>
      have hrun : (stateConnectionMalloc e).run m =
          (none, { m with heap := ((m.heap.acquire .connState).refuse).release m.heap.next }) := by
        simp only [stateConnectionMalloc, lift_mem, Prog.run_bind, run_espushMalloc, hs, if_true,
          run_openHandle, Ledger.next_acquire, hl, Bool.false_eq_true, if_false, run_espushFree,
          Prog.run_pure, addr_freshBlock]
      rw [hrun]
      exact .failed _ (hrefl.acquire _).refuse.release
    | true =>
      have hrun : (stateConnectionMalloc e).run m =
          (some ⟨m.heap.next, m.heap.next + 1⟩,
            { m with heap := (m.heap.acquire .connState).acquire .mutex }) := by
        simp only [stateConnectionMalloc, lift_mem, Prog.run_bind, run_espushMalloc, hs, if_true,
          run_openHandle, Ledger.next_acquire, hl, Prog.run_pure, addr_freshBlock]
      rw [hrun]
      exact .made

/-! ## `recv_resource` -/

/-- The resource `r` owns all that was added to `l`. -/
structure OwnedResource (l : Ledger Kind) (r : RecvResource) (l' : Ledger Kind) : Prop where
  addr : r.addr = l.next
  buffer : r.buffer.addr = l.next + 1
  data : r.buffer.buffer.addr = l.next + 2
  pipe : r.pipe = l.next + 3
  readFd : r.readFd = l.next + 4
  writeFd : r.writeFd = l.next + 5
  heap : l' = (((((l.acquire .recvResource).acquire .bufferStruct).acquire .bufferData).acquire
    .pipe).acquire .readFd).acquire .writeFd

/-- The ways a call of `resource_pipe_init` ends. -/
inductive PipeInitResult (m : Mem) : Option (Nat × Nat × Nat) × Mem → Prop
  | failed (heap : Ledger Kind) : m.heap.Extends heap [] →
      PipeInitResult m (none, { m with heap := heap })
  | made : PipeInitResult m
      (some (m.heap.next, m.heap.next + 1, m.heap.next + 2),
        { m with heap := ((m.heap.acquire .pipe).acquire .readFd).acquire .writeFd })

theorem resourcePipeInit_result {e : Env} {m : Mem} :
    PipeInitResult m ((resourcePipeInit e).run m) := by
  have hrefl := Ledger.Extends.refl m.heap
  cases hp : e.grant m.heap.next .pipe 0 with
  | false =>
    have hrun : (resourcePipeInit e).run m = (none, { m with heap := m.heap.refuse }) := by
      simp only [resourcePipeInit, lift_mem, Prog.run_bind, run_openHandle, hp, Bool.false_eq_true,
        if_false, Prog.run_pure]
    rw [hrun]
    exact .failed _ hrefl.refuse
  | true =>
    cases hr : e.grant (m.heap.next + 1) .readFd 0 with
    | false =>
      have hrun : (resourcePipeInit e).run m =
          (none, { m with heap := ((m.heap.acquire .pipe).refuse).release m.heap.next }) := by
        simp only [resourcePipeInit, lift_mem, Prog.run_bind, run_openHandle, hp, if_true,
          Ledger.next_acquire, hr, Bool.false_eq_true, if_false, run_espushFree, Prog.run_pure]
      rw [hrun]
      exact .failed _ (hrefl.acquire _).refuse.release
    | true =>
      cases hw : e.grant (m.heap.next + 1 + 1) .writeFd 0 with
      | false =>
        have hrun : (resourcePipeInit e).run m =
            (none, { m with heap := (((m.heap.acquire .pipe).acquire .readFd).refuse.release
              m.heap.next).release (m.heap.next + 1) }) := by
          simp only [resourcePipeInit, lift_mem, Prog.run_bind, run_openHandle, hp, if_true,
            Ledger.next_acquire, hr, hw, Bool.false_eq_true, if_false, run_espushFree,
            Prog.run_pure]
        rw [hrun]
        -- the pipe is freed below its descriptor
        have hpipe := ((Ledger.Extends.refl (m.heap.acquire .pipe)).acquire
          Kind.readFd).refuse.release_oldest
        exact .failed _ hpipe.release
      | true =>
        have hrun : (resourcePipeInit e).run m =
            (some (m.heap.next, m.heap.next + 1, m.heap.next + 2),
              { m with heap := ((m.heap.acquire .pipe).acquire .readFd).acquire .writeFd }) := by
          simp only [resourcePipeInit, lift_mem, Prog.run_bind, run_openHandle, hp, if_true,
            Ledger.next_acquire, hr, hw, Prog.run_pure]
        rw [hrun]
        exact .made

/-- The ways a call of `resource_malloc` ends. -/
inductive ResourceMallocResult (m : Mem) : Option RecvResource × Mem → Prop
  | failed (heap : Ledger Kind) : m.heap.Extends heap [] →
      ResourceMallocResult m (none, { m with heap := heap })
  | made (r : RecvResource) (heap : Ledger Kind) : OwnedResource m.heap r heap → r.heart = none →
      r.buffer.cap = maxRecvBufferLength →
      ResourceMallocResult m (some r, { m with heap := heap })

theorem resourceMalloc_result {e : Env} {m : Mem} :
    ResourceMallocResult m ((resourceMalloc e).run m) := by
  have hrefl := Ledger.Extends.refl m.heap
  cases hg : e.grant m.heap.next .recvResource sizeofRecvResource with
  | false =>
    have hrun : (resourceMalloc e).run m = (none, { m with heap := m.heap.refuse }) := by
      simp only [resourceMalloc, lift_mem, Prog.run_bind, run_espushMalloc, hg, Bool.false_eq_true,
        if_false, Prog.run_pure]
    rw [hrun]
    exact .failed _ hrefl.refuse
  | true =>
    have hbuf := mallocBuffer_result e maxRecvBufferLength
      { m with heap := m.heap.acquire .recvResource }
    generalize hb : (mallocBuffer e maxRecvBufferLength).run
      { m with heap := m.heap.acquire .recvResource } = b at hbuf
    cases hbuf with
    | noStruct =>
      have hrun : (resourceMalloc e).run m =
          (none, { m with heap := ((m.heap.acquire .recvResource).refuse).release m.heap.next }) := by
        simp only [resourceMalloc, lift_mem, Prog.run_bind, run_espushMalloc, hg, if_true, hb,
          run_espushFree, Prog.run_pure, addr_freshBlock]
      rw [hrun]
      exact .failed _ (hrefl.acquire _).refuse.release
    | noData =>
      have hrun : (resourceMalloc e).run m =
          (none, { m with heap := ((((m.heap.acquire .recvResource).acquire .bufferStruct).refuse
            ).release (m.heap.next + 1)).release m.heap.next }) := by
        simp only [resourceMalloc, lift_mem, Prog.run_bind, run_espushMalloc, hg, if_true, hb,
          run_espushFree, Prog.run_pure, addr_freshBlock, Ledger.next_acquire]
      rw [hrun]
      exact .failed _ ((hrefl.acquire _).acquire _).refuse.release.release
    | made buf haddr hdata hcap =>
      have hpipe := resourcePipeInit_result (e := e) (m := { m with
        heap := ((m.heap.acquire .recvResource).acquire .bufferStruct).acquire .bufferData })
      generalize hp : (resourcePipeInit e).run { m with
        heap := ((m.heap.acquire .recvResource).acquire .bufferStruct).acquire .bufferData } = p
        at hpipe
      cases hpipe with
      | failed heap hext =>
        have hrun : (resourceMalloc e).run m =
            (none, { m with
              heap := ((heap.release buf.buffer.addr).release buf.addr).release m.heap.next }) := by
          simp only [resourceMalloc, lift_mem, Prog.run_bind, run_espushMalloc, hg, if_true, hb, hp,
            freeBuffer, run_espushFree, Prog.run_pure, addr_freshBlock]
        rw [hrun, hdata, haddr]
        exact .failed _ hext.release_oldest.release_oldest.release_oldest
      | made =>
        have hrun : (resourceMalloc e).run m =
            (some ⟨m.heap.next, buf, m.heap.next + 3, m.heap.next + 4, m.heap.next + 5, none⟩,
              { m with heap := (((((m.heap.acquire .recvResource).acquire .bufferStruct).acquire
                .bufferData).acquire .pipe).acquire .readFd).acquire .writeFd }) := by
          simp only [resourceMalloc, lift_mem, Prog.run_bind, run_espushMalloc, hg, if_true, hb, hp,
            Prog.run_pure, addr_freshBlock, Ledger.next_acquire]
        rw [hrun]
        exact .made _ _ ⟨rfl, haddr, hdata, rfl, rfl, rfl, rfl⟩ rfl hcap

/-- `resource_free` gives back what the resource and its timer own, below anything
acquired since. -/
theorem resourceFree_heap {l l' : Ledger Kind} {r : RecvResource} {m : Mem}
    {new : List (Nat × Kind)} (hown : OwnedResource l r l')
    (hext : match r.heart with
      | none => l'.Extends m.heap new
      | some heart => heart = l'.next ∧ (l'.acquire .timer).Extends m.heap new) :
    l.Extends ((resourceFree r).run m).2.heap new := by
  have hrefl := @Ledger.Extends.refl Kind
  have hrun : ∃ m1 : Mem, l'.Extends m1.heap new ∧ ((resourceFree r).run m).2.heap =
      (((((m1.heap.release r.readFd).release r.writeFd).release r.pipe).release
        r.buffer.buffer.addr).release r.buffer.addr).release r.addr := by
    cases hh : r.heart with
    | none =>
      rw [hh] at hext
      refine ⟨m, hext, ?_⟩
      simp only [resourceFree, hh, resourcePipeDeinit, freeBuffer, lift_mem, Prog.run_bind,
        run_espushFree]
    | some heart =>
      rw [hh] at hext
      obtain ⟨rfl, hext⟩ := hext
      refine ⟨{ m with heap := m.heap.release l'.next }, hext.release_oldest, ?_⟩
      simp only [resourceFree, hh, resourceHeartTimerDeinit, resourcePipeDeinit, freeBuffer, lift_mem,
        Prog.run_bind, run_espushFree]
  obtain ⟨m1, hext, hrun⟩ := hrun
  rw [hrun, hown.addr, hown.buffer, hown.data, hown.pipe, hown.readFd, hown.writeFd]
  rw [hown.heap] at hext
  have hne : ∀ p ∈ new, p.1 ≠ l.next + 5 := by
    intro p hp
    have := hext.fresh p hp
    simp only [Ledger.next_acquire] at this
    omega
  have hfds := ((hrefl _).acquire Kind.writeFd).trans hext
  have hread := hfds.release_oldest
  have hwrite := hread.release_below hne
  rw [List.append_nil] at hwrite
  exact hwrite.release_oldest.release_oldest.release_oldest.release_oldest

/-! ## The select loop -/

theorem heartTimeout_mem (w : World) : ((heartTimeout).run w).2.mem = w.mem := by
  simp only [heartTimeout, Prog.run_modify]
  split <;> rfl

theorem asyncPipeRead_mem (e : Env) (w : World) : ((asyncPipeRead e).run w).2.mem = w.mem := by
  simp only [asyncPipeRead, lift_world, Prog.run_bind, run_readPipe, Prog.run_ite, Prog.run_pure, run_send]
  split
  · rfl
  · split <;> rfl

/-- A call of `select_handle` leaves behind frames of messages. -/
theorem selectHandle_result {e : Env} {buf : Buffer} {w : World} (event : SelectEvent)
    (hcap : buf.cap = maxRecvBufferLength) :
    buf.SameBlock ((selectHandle e buf event).run w).1.2 ∧
      ∃ new, w.mem.heap.Extends ((selectHandle e buf event).run w).2.mem.heap new ∧
        PerMessage new := by
  have hrefl := Ledger.Extends.refl w.mem.heap
  cases event with
  | timeout => exact ⟨.refl buf, [], hrefl, perMessage_nil⟩
  | error => exact ⟨.refl buf, [], hrefl, perMessage_nil⟩
  | ready sock pipe =>
    rw [run_selectHandle_ready]
    have hsock : ∃ r, (if sock then (asyncSockRecv e buf).run w else ((0, buf), w)) = r ∧
        buf.SameBlock r.1.2 ∧ ∃ new, w.mem.heap.Extends r.2.mem.heap new ∧ PerMessage new := by
      cases sock with
      | false => exact ⟨_, rfl, .refl buf, [], hrefl, perMessage_nil⟩
      | true =>
        obtain ⟨new, hext, hper, _⟩ := asyncSockRecv_heap (e := e) (w := w) hcap
        exact ⟨_, rfl, asyncSockRecv_sameBlock hcap, new, hext, hper⟩
    obtain ⟨r, hr, hsame, hheap⟩ := hsock
    simp only [hr]
    split
    · exact ⟨hsame, hheap⟩
    · cases pipe with
      | false => exact ⟨hsame, hheap⟩
      | true =>
        rw [← asyncPipeRead_mem e r.2] at hheap
        exact ⟨hsame, hheap⟩

theorem waitLoop_result {e : Env} (events : List SessionEvent) {r : RecvResource} {w : World}
    (hcap : r.buffer.cap = maxRecvBufferLength) :
    (∃ buf, r.buffer.SameBlock buf ∧
      ((waitLoop e events r).run w).1 = { r with buffer := buf }) ∧
      ∃ new, w.mem.heap.Extends ((waitLoop e events r).run w).2.mem.heap new ∧
        PerMessage new := by
  induction events generalizing r w with
  | nil =>
    exact ⟨⟨r.buffer, .refl _, rfl⟩, [], Ledger.Extends.refl w.mem.heap, perMessage_nil⟩
  | cons event events ih =>
    cases event with
    | heart =>
      simp only [waitLoop, Prog.run_bind]
      have h := ih (w := ((heartTimeout).run w).2) hcap
      rwa [heartTimeout_mem w] at h
    | select event =>
      obtain ⟨hsame, new, hext, hper⟩ := selectHandle_result (e := e) (w := w) event hcap
      generalize hs : (selectHandle e r.buffer event).run w = s at hsame hext
      simp only [waitLoop, Prog.run_bind, hs, Prog.run_ite, Prog.run_pure]
      split
      · exact ⟨⟨_, hsame, rfl⟩, new, hext, hper⟩
      · obtain ⟨⟨buf, hsame', hrun⟩, new', hext', hper'⟩ :=
          ih (r := { r with buffer := s.1.2 }) (w := s.2) (hsame.2.2.trans hcap)
        exact ⟨⟨buf, hsame.trans hsame', hrun⟩, _, hext.trans hext', perMessage_append hper' hper⟩

/-! ## A connection -/

/-- `_nonblock_wait_recv` gives back all it made. -/
theorem nonblockWaitRecv_result (e : Env) (events : List SessionEvent) (conn : EspushConnection)
    (w : World) :
    ((nonblockWaitRecv e events conn).run w).1 = (-1, { conn with res := none }) ∧
      ∃ new, w.mem.heap.Extends ((nonblockWaitRecv e events conn).run w).2.mem.heap new ∧
        PerMessage new := by
  have hmalloc := resourceMalloc_result (e := e) (m := w.mem)
  generalize hm : (resourceMalloc e).run w.mem = p at hmalloc
  cases hmalloc with
  | failed heap hext =>
    have hrun : (nonblockWaitRecv e events conn).run w =
        ((-1, { conn with res := none }), { w with mem := { w.mem with heap := heap } }) := by
      simp only [nonblockWaitRecv, Prog.run_bind, run_liftMem, hm, Prog.run_pure]
    rw [hrun]
    exact ⟨rfl, [], hext, perMessage_nil⟩
  | made r heap hown hheart hcap =>
    cases hg : e.grant heap.next .timer 0 with
    | false =>
      have hrun : (nonblockWaitRecv e events conn).run w =
          ((-1, { conn with res := none }), { w with
            mem := ((resourceFree r).run { w.mem with heap := heap.refuse }).2
            pipe := [] }) := by
        simp only [nonblockWaitRecv, Prog.run_bind, run_liftMem, hm, Prog.run_modify,
          resourceHeartTimerInit, run_openHandle, hg, Bool.false_eq_true, if_false, Prog.run_pure,
          show (-1 : Int) < 0 by decide, if_true]
      rw [hrun]
      refine ⟨rfl, [], resourceFree_heap hown ?_, perMessage_nil⟩
      rw [hheart]
      exact (Ledger.Extends.refl heap).refuse
    | true =>
      have hloop := waitLoop_result (e := e) events (r := { r with heart := some heap.next })
        (w := { w with mem := { w.mem with heap := heap.acquire .timer }, pipe := [] }) hcap
      generalize hl : (waitLoop e events { r with heart := some heap.next }).run
        { w with mem := { w.mem with heap := heap.acquire .timer }, pipe := [] } = l at hloop
      obtain ⟨⟨buf, hsame, hres⟩, new, hext, hper⟩ := hloop
      have hrun : (nonblockWaitRecv e events conn).run w =
          ((-1, { conn with res := none }), { l.2 with
            mem := ((resourceFree l.1).run l.2.mem).2 }) := by
        simp only [nonblockWaitRecv, Prog.run_bind, run_liftMem, hm, Prog.run_modify,
          resourceHeartTimerInit, run_openHandle, hg, Int.lt_irrefl, if_false, Prog.run_pure,
          if_true, hl]
      rw [hrun, hres]
      -- the loop does not move the buffer
      have hown' : OwnedResource w.mem.heap { r with heart := some heap.next, buffer := buf } heap :=
        ⟨hown.addr, hsame.1.trans hown.buffer, hsame.2.1.trans hown.data, hown.pipe, hown.readFd,
          hown.writeFd, hown.heap⟩
      exact ⟨rfl, new, resourceFree_heap hown' ⟨rfl, hext⟩, hper⟩

/-- A connection that ends leaves behind frames of messages and nothing else. -/
theorem cloudWaitForever_result (e : Env) (events : List SessionEvent) (conn : EspushConnection)
    (w : World) (hres : conn.res = none) :
    ((cloudWaitForever e events conn).run w).1 = (-1, { conn with state := none }) ∧
      ∃ new, w.mem.heap.Extends ((cloudWaitForever e events conn).run w).2.mem.heap new ∧
        PerMessage new := by
  have hmalloc := stateConnectionMalloc_result (e := e) (m := w.mem)
  generalize hm : (stateConnectionMalloc e).run w.mem = p at hmalloc
  cases hmalloc with
  | failed heap hext =>
    have hrun : (cloudWaitForever e events conn).run w =
        ((-1, { conn with state := none }), { w with mem := { w.mem with heap := heap } }) := by
      simp only [cloudWaitForever, Prog.run_bind, run_liftMem, hm, Prog.run_pure]
    rw [hrun]
    exact ⟨rfl, [], hext, perMessage_nil⟩
  | made =>
    obtain ⟨hrc, new, hext, hper⟩ := nonblockWaitRecv_result e events
      { conn with state := some ⟨w.mem.heap.next, w.mem.heap.next + 1⟩ }
      { w with mem := { w.mem with heap := (w.mem.heap.acquire .connState).acquire .mutex } }
    generalize hn : (nonblockWaitRecv e events
      { conn with state := some ⟨w.mem.heap.next, w.mem.heap.next + 1⟩ }).run { w with
        mem := { w.mem with heap := (w.mem.heap.acquire .connState).acquire .mutex } } = n
      at hrc hext
    have hrun : (cloudWaitForever e events conn).run w =
        ((n.1.1, { n.1.2 with state := none }), { n.2 with mem := { n.2.mem with
          heap := (n.2.mem.heap.release (w.mem.heap.next + 1)).release w.mem.heap.next } }) := by
      simp only [cloudWaitForever, Prog.run_bind, run_liftMem, hm, hn, stateConnectionFree, lift_mem,
        run_espushFree, Prog.run_pure]
    rw [hrun, hrc]
    refine ⟨?_, new, hext.release_oldest.release_oldest, hper⟩
    rw [← hres]

end EspushW60x
