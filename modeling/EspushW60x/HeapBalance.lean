import EspushW60x.Stream

/-!
# Heap balance of message handling

What is live after a call of `async_sock_recv` is what was live before and a few
new blocks on top. There are new blocks exactly when a message was handled
without an error: `handle_buffer` frees the frame and its body only on its error
exits, and `write_lightproto_frame` never frees its answer. `recv_frame` in turn
never frees its scratch block when it succeeds.

Results:
* `asyncSockRecv_heap`: the new blocks of one call;
* `message_heap_balance`: one call, one blocking receive and any run are balanced
  exactly when they handle no message.
-/

namespace EspushW60x

open Lib EventLoopLemmas StreamLemmas

/-! ## Conditions -/

/-- The bytes in the buffer once the next chunk is added. -/
def buffered (buf : Buffer) (w : World) : Bytes := buf.contents ++ (arrival w).2.1

/-- The call finds bytes for which there is room, they complete a frame, its
struct and body are granted, and its handler returns no error. -/
def HandlesMessage (e : Env) (buf : Buffer) (w : World) : Prop :=
  (arrival w).2.1 ≠ [] ∧ (buffered buf w).length < 252 ∧ frameFormat.HasFrame (buffered buf w) ∧
    e.grant w.mem.heap.next (.frame .message) sizeofFrame = true ∧
    Decoded e (w.mem.heap.next + 1) (buffered buf w) ∧
    0 ≤ handlerRc e (decode ((buffered buf w).take (frameLen (buffered buf w)))) w

instance (e : Env) (buf : Buffer) (w : World) : Decidable (HandlesMessage e buf w) :=
  inferInstanceAs (Decidable (_ ∧ _ ∧ _ ∧ _ ∧ _ ∧ _))

/-- Both parts of a message arrive, and it is within the size limits and its body,
if it has one, is granted. -/
def ReceivesMessage (e : Env) (site : Site) (w : World) : Prop :=
  RecvDelivered e w ∧ recvLeft w ≤ maxFrameLeft ∧
    (recvLeft w = 2 ∨ e.grant (w.mem.heap.next + 1) (.body site) ((recvLeft w : Int) - 2) = true)

instance (e : Env) (site : Site) (w : World) : Decidable (ReceivesMessage e site w) :=
  inferInstanceAs (Decidable (_ ∧ _ ∧ (_ ∨ _)))

/-- After `recv_frame`, nothing new is live but a body that the frame owns. -/
def RecvBalanced (e : Env) (site : Site) (f : Frame) (w : World) : Prop :=
  let r := (recvFrame e site f).run w
  r.2.mem.heap.live = w.mem.heap.live ∨
    ∃ b, r.1.2.dataFlag = .dyn ∧ r.1.2.data = .dyn b ∧
      r.2.mem.heap.live = (b.addr, .body site) :: w.mem.heap.live

/-- What a message leaves behind: frame structs and bodies. -/
def PerMessage (new : List (Nat × Kind)) : Prop :=
  ∀ p ∈ new, p.2 = .frame .message ∨ p.2 = .body .message

/-! ## Handlers -/

namespace HeapBalanceLemmas

theorem perMessage_nil : PerMessage [] := List.forall_mem_nil _

theorem perMessage_append {xs ys : List (Nat × Kind)} (hx : PerMessage xs) (hy : PerMessage ys) :
    PerMessage (xs ++ ys) := by
  intro p hp
  rcases List.mem_append.mp hp with hp | hp
  · exact hx p hp
  · exact hy p hp

/-- Writing an answer leaves its frame behind. -/
theorem WriteLightprotoResult.heap {e : Env} {out : Lightproto} {w w' : World}
    (h : WriteLightprotoResult e out w w') :
    ∃ new, w.mem.heap.Extends w'.mem.heap new ∧ PerMessage new := by
  have hrefl := Ledger.Extends.refl w.mem.heap
  have hframe : PerMessage [(w.mem.heap.next, .frame .message)] := by
    intro p hp
    rw [List.mem_singleton.mp hp]
    exact .inl rfl
  cases h with
  | refused => exact ⟨[], hrefl.refuse, perMessage_nil⟩
  | unsent => exact ⟨_, (hrefl.acquire _).refuse, hframe⟩
  | sent => exact ⟨_, ((hrefl.acquire _).acquire _).release, hframe⟩

/-- A handler that returns an error leaves the heap as it was. -/
theorem HandleFrameResult.heap {e : Env} {f : Frame} {w : World} {r : Int × World}
    (h : HandleFrameResult e f w r) :
    ∃ new, w.mem.heap.Extends r.2.mem.heap new ∧ PerMessage new ∧
      (r.1 < 0 → r.2.mem.heap = w.mem.heap) := by
  have hrefl := Ledger.Extends.refl w.mem.heap
  cases h with
  | silent => exact ⟨[], hrefl, perMessage_nil, fun _ => rfl⟩
  | probe => exact ⟨[], hrefl, perMessage_nil, fun _ => rfl⟩
  | uart w' _ hu =>
    cases hu with
    | ignored => exact ⟨[], hrefl, perMessage_nil, fun _ => rfl⟩
    | answered out w1 _ _ hp hw =>
      obtain ⟨pins, log, rfl⟩ := hp
      obtain ⟨new, hext, hnew⟩ := WriteLightprotoResult.heap hw
      exact ⟨new, hext, hnew, fun h => absurd h (Int.lt_irrefl 0)⟩

/-- The frame that was decoded, and its body, are new. -/
theorem OwnedFrame.extends {heap heap' : Ledger Kind} {f : Frame} (h : OwnedFrame heap f heap') :
    ∃ new, new ≠ [] ∧ heap.Extends heap' new ∧ PerMessage new := by
  have hrefl := Ledger.Extends.refl heap
  cases h with
  | empty =>
    refine ⟨_, List.cons_ne_nil _ _, hrefl.acquire _, ?_⟩
    intro p hp
    rw [List.mem_singleton.mp hp]
    exact .inl rfl
  | body =>
    refine ⟨_, List.cons_ne_nil _ _, (hrefl.acquire _).acquire _, ?_⟩
    intro p hp
    rcases List.mem_cons.mp hp with rfl | hp
    · exact .inr rfl
    · rw [List.mem_singleton.mp hp]
      exact .inl rfl

/-- Freeing the frame gives back all it owns. -/
theorem OwnedFrame.free {heap heap' : Ledger Kind} {f : Frame} {m : Mem}
    (h : OwnedFrame heap f heap') (hm : m.heap = heap') :
    heap.Extends ((freeFrame f).run m).2.heap [] := by
  have hrefl := Ledger.Extends.refl heap
  cases h with
  | empty haddr hdata =>
    rw [run_freeFrame_null hdata, haddr, hm]
    exact (hrefl.acquire _).release
  | body bytes haddr hflag hdata =>
    rw [run_freeFrame_dyn hflag hdata, haddr, hm]
    exact ((hrefl.acquire _).acquire _).release.release

end HeapBalanceLemmas

open HeapBalanceLemmas

/-! ## One event -/

/-- The new blocks of one call of `async_sock_recv`. There are some exactly when
the call handles a message without an error. -/
theorem asyncSockRecv_heap {e : Env} {buf : Buffer} {w : World}
    (hcap : buf.cap = maxRecvBufferLength) :
    ∃ new, w.mem.heap.Extends ((asyncSockRecv e buf).run w).2.mem.heap new ∧ PerMessage new ∧
      (new = [] ↔ ¬ HandlesMessage e buf w) := by
  have h := asyncSockRecv_result (e := e) (w := w) hcap
  generalize (asyncSockRecv e buf).run w = r at h
  have hrefl := Ledger.Extends.refl w.mem.heap
  cases h with
  | closed _ hnil => exact ⟨[], hrefl, perMessage_nil, iff_of_true rfl fun h => h.1 hnil⟩
  | overflow _ _ hbig =>
    refine ⟨[], hrefl, perMessage_nil, iff_of_true rfl fun h => ?_⟩
    have hlen := h.2.1
    rw [buffered, List.length_append, length_contents] at hlen
    simp only [maxRecvBufferLength] at hbig
    omega
  | buffered buf1 log r hgot _ _ hc hres =>
    have hc : buf1.contents = buffered buf w := hc
    have hlen1 : buf1.len = (buffered buf w).length := by rw [← hc, length_contents]
    cases hres with
    | full hfull =>
      exact ⟨[], hrefl, perMessage_nil, iff_of_true rfl fun h => by have := h.2.1; omega⟩
    | waiting _ _ hno =>
      rw [hc] at hno
      exact ⟨[], hrefl, perMessage_nil, iff_of_true rfl fun h => hno h.2.2.1⟩
    | refused _ _ _ hg =>
      refine ⟨[], hrefl.refuse, perMessage_nil, iff_of_true rfl fun h => ?_⟩
      have hg' := h.2.2.2.1
      rw [hg] at hg'
      cases hg'
    | malformed heap _ _ _ _ hdec hext =>
      rw [hc] at hdec
      exact ⟨[], hext, perMessage_nil, iff_of_true rfl fun h => hdec h.2.2.2.2.1⟩
    | handled f heap log r hlt hfr hg hdec howned hmsg hf =>
      have hrc : r.1 = handlerRc e f.message w := (HandleFrameResult.rc hf).trans rfl
      rw [hc] at hfr hdec hmsg
      rw [hmsg] at hrc
      obtain ⟨new, hext, hnew, hsame⟩ := HandleFrameResult.heap hf
      by_cases hneg : r.1 < 0
      · rw [if_pos hneg]
        refine ⟨[], OwnedFrame.free howned (hsame hneg), perMessage_nil, iff_of_true rfl ?_⟩
        intro h
        have hpos := h.2.2.2.2.2
        rw [← hrc] at hpos
        omega
      · rw [if_neg hneg]
        obtain ⟨own, hne, hown, hper⟩ := OwnedFrame.extends howned
        refine ⟨_, hown.trans hext, perMessage_append hnew hper, iff_of_false ?_ ?_⟩
        · exact fun hnil => hne (List.append_eq_nil_iff.mp hnil).2
        · refine not_not_intro ⟨hgot, by omega, hfr, hg, hdec, ?_⟩
          rw [← hrc]
          exact Int.not_lt.mp hneg

/-! ## One blocking receive -/

theorem recvFrame_balanced_iff {e : Env} {site : Site} {f : Frame} {w : World} :
    ((recvFrame e site f).run w).2.mem.heap.bad = w.mem.heap.bad ∧
      (RecvBalanced e site f w ↔ ¬ ReceivesMessage e site w) := by
  have h := recvFrame_result e site f w
  unfold RecvBalanced
  generalize (recvFrame e site f).run w = r at h
  cases h with
  | short heap _ _ hno hext =>
    exact ⟨hext.bad, iff_of_true (.inl hext.live) fun h => hno ⟨h.1, h.2.1⟩⟩
  | refused heap _ _ _ htwo hg hext =>
    refine ⟨hext.bad, iff_of_true (.inl hext.live) ?_⟩
    rintro ⟨_, _, h | h⟩
    · exact htwo h
    · rw [hg] at h
      cases h
  | empty _ hdel htwo =>
    refine ⟨rfl, iff_of_false ?_ (not_not_intro ⟨hdel, by rw [htwo]; decide, .inl htwo⟩)⟩
    rintro (h | ⟨b, hflag, _⟩)
    · exact List.cons_ne_self _ _ h
    · cases hflag
  | body _ hdel hmax _ hg =>
    refine ⟨rfl, iff_of_false ?_ (not_not_intro ⟨hdel, hmax, .inr hg⟩)⟩
    rintro (h | ⟨b, _, hdata, h⟩)
    · have := congrArg List.length h
      simp only [Ledger.live_acquire, List.length_cons] at this
      omega
    · -- the scratch block is live below the body
      have := congrArg List.length h
      simp only [Ledger.live_acquire, List.length_cons] at this
      omega

/-! ## Runs -/

namespace HeapBalanceLemmas

/-- The state after `n` events, and what was added to the heap by then. -/
theorem run_heap {e : Env} {buf : Buffer} {w : World} (hcap : buf.cap = maxRecvBufferLength)
    (n : Nat) :
    ((Prog.repeatWhile (sockStep e) n buf).run w).1.2.cap = maxRecvBufferLength ∧
      ∃ new, w.mem.heap.Extends ((Prog.repeatWhile (sockStep e) n buf).run w).2.mem.heap new ∧
        PerMessage new ∧
        (new = [] ↔ ∀ k, k < n → ((Prog.repeatWhile (sockStep e) k buf).run w).1.1 = true →
          ¬ HandlesMessage e ((Prog.repeatWhile (sockStep e) k buf).run w).1.2
            ((Prog.repeatWhile (sockStep e) k buf).run w).2) := by
  induction n with
  | zero =>
    refine ⟨hcap, [], Ledger.Extends.refl _, perMessage_nil, iff_of_true rfl ?_⟩
    exact fun k hk => absurd hk (Nat.not_lt_zero k)
  | succ n ih =>
    obtain ⟨hcap', new, hext, hper, hiff⟩ := ih
    rw [Prog.run_repeatWhile_add_one]
    by_cases hok : ((Prog.repeatWhile (sockStep e) n buf).run w).1.1 = true
    · rw [if_pos hok]
      obtain ⟨new', hext', hper', hiff'⟩ := asyncSockRecv_heap (e := e)
        (w := ((Prog.repeatWhile (sockStep e) n buf).run w).2) hcap'
      refine ⟨(asyncSockRecv_sameBlock hcap').2.2.trans hcap', _, hext.trans hext', perMessage_append hper' hper, ?_⟩
      rw [List.append_eq_nil_iff, hiff, hiff']
      constructor
      · rintro ⟨hlast, hall⟩ k hk hokk
        rcases Nat.lt_succ_iff_lt_or_eq.mp hk with hk | rfl
        · exact hall k hk hokk
        · exact hlast
      · exact fun hall => ⟨hall n (Nat.lt_succ_self n) hok,
          fun k hk => hall k (Nat.lt_succ_of_lt hk)⟩
    · rw [if_neg hok]
      refine ⟨hcap', new, hext, hper, hiff.trans ?_⟩
      constructor
      · intro hall k hk hokk
        rcases Nat.lt_succ_iff_lt_or_eq.mp hk with hk | rfl
        · exact hall k hk hokk
        · exact absurd hokk hok
      · exact fun hall k hk => hall k (Nat.lt_succ_of_lt hk)

end HeapBalanceLemmas

/-- Nothing is freed twice. A call of `async_sock_recv`, a call of `recv_frame` and
a run of any length leave what was live before exactly when they handle, or
receive, no message. -/
theorem message_heap_balance (e : Env) :
    (∀ (buf : Buffer) (w : World), buf.cap = maxRecvBufferLength →
      ((asyncSockRecv e buf).run w).2.mem.heap.bad = w.mem.heap.bad ∧
      (((asyncSockRecv e buf).run w).2.mem.heap.live = w.mem.heap.live ↔
        ¬ HandlesMessage e buf w)) ∧
    (∀ (site : Site) (f : Frame) (w : World),
      ((recvFrame e site f).run w).2.mem.heap.bad = w.mem.heap.bad ∧
      (RecvBalanced e site f w ↔ ¬ ReceivesMessage e site w)) ∧
    (∀ (buf : Buffer) (w : World) (n : Nat), buf.cap = maxRecvBufferLength →
      ((Prog.repeatWhile (sockStep e) n buf).run w).2.mem.heap.bad = w.mem.heap.bad ∧
      (((Prog.repeatWhile (sockStep e) n buf).run w).2.mem.heap.live = w.mem.heap.live ↔
        ∀ k, k < n → ((Prog.repeatWhile (sockStep e) k buf).run w).1.1 = true →
          ¬ HandlesMessage e ((Prog.repeatWhile (sockStep e) k buf).run w).1.2
            ((Prog.repeatWhile (sockStep e) k buf).run w).2)) := by
  refine ⟨?_, fun _ _ _ => recvFrame_balanced_iff, ?_⟩
  · intro buf w hcap
    obtain ⟨new, hext, _, hiff⟩ := asyncSockRecv_heap (e := e) (w := w) hcap
    exact ⟨hext.bad, hext.live_eq_iff.trans hiff⟩
  · intro buf w n hcap
    obtain ⟨_, new, hext, _, hiff⟩ := run_heap (e := e) (w := w) hcap n
    exact ⟨hext.bad, hext.live_eq_iff.trans hiff⟩

/-- Every `send` fails. -/
def Env.mute : Env := { Env.benign with sendRc := fun _ _ => -1 }

/-- A frame is received whose answer cannot be sent: its struct and its body are made, and
freed again. -/
theorem message_heap_balance_mute :
    ((asyncSockRecv .mute emptyBuffer).run (World.start (deliveries
        [[0, 3, 0x85, 7, 1]]))).2.mem.heap.next = 2 ∧
      ((asyncSockRecv .mute emptyBuffer).run (World.start (deliveries
        [[0, 3, 0x85, 7, 1]]))).2.mem.heap.live = [] := by
  have h := (message_heap_balance .mute).1 emptyBuffer (World.start (deliveries
    [[0, 3, 0x85, 7, 1]])) emptyBuffer_fresh.1
  exact ⟨by decide +kernel, h.2.mpr (by decide +kernel)⟩

/-- One heart response leaves its frame and its body behind. -/
theorem heart_response_leak :
    ((asyncSockRecv Env.benign emptyBuffer).run (World.start (deliveries
      [[0, 3, 0x80, 7, 1]]))).2.mem.heap.live = [(1, .body .message), (0, .frame .message)] := by
  decide +kernel

end EspushW60x
