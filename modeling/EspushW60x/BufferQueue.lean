import EspushW60x.ReceiveBuffer
import EspushW60x.Lib.Queue
import EspushW60x.Lib.Run

/-!
# The receive buffer as a bounded queue

`buffer_add_data` is an offer to a queue of capacity `cap`, `buffer_shrink` takes the
oldest bytes out of it. A run of calls on a buffer is compared with the same run on
the queue.

The comparison fails in two corners. The capacity check adds two 32-bit lengths, so
a huge length wraps around and is accepted; and the terminator that `buffer_shrink`
stores behind the rest is outside the block when the buffer is full and nothing is
taken out.

Results:
* `queueStep_iff`: the calls that do what the queue does;
* `receive_buffer_queue`: a run is a run of the queue exactly when it makes no others.
-/

namespace EspushW60x

open Lib

/-! ## Runs of calls -/

/-- A call of `buffer_add_data` or `buffer_shrink`. -/
abbrev BufferOp := Queue.Op UInt8

/-- `buffer_shrink` returns nothing. -/
def bufferCall (buf : Buffer) : BufferOp → Prog Mem (Int × Buffer)
  | .offer bs => bufferAddData buf bs
  | .take n => do
    let buf ← bufferShrink buf n
    return (0, buf)

/-- A buffer, and the queue that it is compared with. -/
structure BufferRun where
  buf : Buffer
  mem : Mem
  queue : Queue UInt8

def BufferRun.step (s : BufferRun) (op : BufferOp) : BufferRun where
  buf := ((bufferCall s.buf op).run s.mem).1.2
  mem := ((bufferCall s.buf op).run s.mem).2
  queue := s.queue.step s.buf.cap op

/-- The assertions of the two functions, for 32-bit lengths. -/
def BufferRun.Allowed (s : BufferRun) : BufferOp → Prop
  | .offer bs => bs ≠ [] ∧ bs.length < 0x100000000
  | .take n => n ≤ s.buf.len

instance (s : BufferRun) (op : BufferOp) : Decidable (s.Allowed op) := by
  cases op <;> unfold BufferRun.Allowed <;> infer_instance

/-- A call does what the queue does: the contents are the items of the queue and fit,
-1 is returned exactly when the queue rejects the call, which then changes nothing,
and all that is read and written lies inside the block. -/
structure BufferRun.QueueStep (s : BufferRun) (op : BufferOp) : Prop where
  len_le : (s.step op).buf.len ≤ s.buf.cap
  contents : (s.step op).buf.contents = (s.step op).queue.items
  rejects : ((bufferCall s.buf op).run s.mem).1.1 = -1 ↔ s.queue.Rejects s.buf.cap op
  unchanged : s.queue.Rejects s.buf.cap op → (s.step op).buf = s.buf
  inside : s.mem.AccessesInside (s.step op).mem

/-- The total length is below `2 ^ 32 - 1`, or it is above the capacity even when it
wraps around. A buffer that is full is not shrunk by nothing. -/
def BufferRun.NoCorner (s : BufferRun) : BufferOp → Prop
  | .offer bs => s.buf.len + bs.length < 0xFFFFFFFF ∨
      s.buf.cap < (s.buf.len + bs.length) % 0x100000000
  | .take n => n ≠ 0 ∨ s.buf.len < s.buf.cap

instance (s : BufferRun) (op : BufferOp) : Decidable (s.NoCorner op) := by
  cases op <;> unfold BufferRun.NoCorner <;> infer_instance

/-- The buffer holds the items of the queue, and its capacity is a `size_t`. -/
structure BufferRun.Holds (s : BufferRun) : Prop where
  contents : s.buf.contents = s.queue.items
  cap_pos : 0 < s.buf.cap
  cap_lt : s.buf.cap < 0x100000000

/-! ## One call -/

namespace BufferQueueLemmas

theorem run_bufferAddData_refused {buf : Buffer} {bs : Bytes} {m : Mem}
    (h : buf.cap < (buf.len + bs.length) % 0x100000000) :
    (bufferAddData buf bs).run m = ((-1, buf), m) := by
  simp only [bufferAddData, dif_pos h]
  rfl

theorem run_bufferAddData_added {buf : Buffer} {bs : Bytes} {m : Mem}
    (h : (buf.len + bs.length) % 0x100000000 ≤ buf.cap) :
    (bufferAddData buf bs).run m =
      ((intOf ((buf.len + bs.length) % 0x100000000), buf.append bs h),
        { m with log := ⟨.bufferData, some buf.cap, buf.len, bs.length⟩ :: m.log }) := by
  simp only [bufferAddData, dif_neg (Nat.not_lt.mpr h)]
  rfl

/-- A length that is returned as -1. -/
theorem intOf_eq_neg_one {n : Nat} (h : n < 0x100000000) : intOf n = -1 ↔ n = 0xFFFFFFFF := by
  rw [intOf, Nat.mod_eq_of_lt h]
  split
  · omega
  · omega

section Offer

variable {s : BufferRun} {bs : Bytes}

theorem rejects_offer_iff (hs : s.Holds) :
    s.queue.Rejects s.buf.cap (.offer bs) ↔ s.buf.cap < s.buf.len + bs.length := by
  show s.buf.cap < s.queue.items.length + bs.length ↔ _
  rw [← hs.contents, length_contents]

/-- The queue has no room either. -/
theorem queueStep_of_refused (hs : s.Holds)
    (h : s.buf.cap < (s.buf.len + bs.length) % 0x100000000) : s.QueueStep (.offer bs) := by
  have hrun : (bufferCall s.buf (.offer bs)).run s.mem = ((-1, s.buf), s.mem) :=
    run_bufferAddData_refused h
  have hbuf : (s.step (.offer bs)).buf = s.buf := by rw [BufferRun.step, hrun]
  have hmem : (s.step (.offer bs)).mem = s.mem := by rw [BufferRun.step, hrun]
  have hrej : s.queue.Rejects s.buf.cap (.offer bs) :=
    (rejects_offer_iff hs).mpr (Nat.lt_of_lt_of_le h (Nat.mod_le _ _))
  have hitems : (s.step (.offer bs)).queue.items = s.queue.items := by
    rw [BufferRun.step, Queue.items_step_offer, if_pos hrej]
  refine ⟨?_, ?_, iff_of_true ?_ hrej, fun _ => hbuf, [], ?_, List.forall_mem_nil _⟩
  · rw [hbuf]
    exact s.buf.len_le
  · rw [hbuf, hitems]
    exact hs.contents
  · rw [hrun]
  · rw [hmem]
    rfl

/-- The bytes are appended. -/
theorem queueStep_of_added (hs : s.Holds) (hfit : s.buf.len + bs.length ≤ s.buf.cap)
    (hlt : s.buf.len + bs.length < 0xFFFFFFFF) : s.QueueStep (.offer bs) := by
  have hmod : (s.buf.len + bs.length) % 0x100000000 = s.buf.len + bs.length :=
    Nat.mod_eq_of_lt (by omega)
  have hfit' : (s.buf.len + bs.length) % 0x100000000 ≤ s.buf.cap := by rw [hmod]; exact hfit
  have hrun : (bufferCall s.buf (.offer bs)).run s.mem = _ := run_bufferAddData_added hfit'
  have hbuf : (s.step (.offer bs)).buf = s.buf.append bs hfit' := by rw [BufferRun.step, hrun]
  have hacc : ¬ s.queue.Rejects s.buf.cap (.offer bs) := by
    rw [rejects_offer_iff hs]
    exact Nat.not_lt.mpr hfit
  have hitems : (s.step (.offer bs)).queue.items = s.queue.items ++ bs := by
    rw [BufferRun.step, Queue.items_step_offer, if_neg hacc]
  refine ⟨?_, ?_, iff_of_false ?_ hacc, fun h => absurd h hacc, ?_⟩
  · rw [hbuf]
    exact hfit'
  · rw [hbuf, contents_append hfit' hfit (by omega), hitems, hs.contents]
  · rw [hrun]
    show ¬ intOf _ = -1
    rw [intOf_eq_neg_one (by omega)]
    omega
  · refine ⟨[⟨.bufferData, some s.buf.cap, s.buf.len, bs.length⟩], ?_, ?_⟩
    · rw [BufferRun.step, hrun]
      rfl
    · intro a ha
      obtain rfl := List.mem_singleton.mp ha
      exact Access.inBounds_of_le (Int.natCast_nonneg _) (Int.natCast_nonneg _) (by omega)

/-- The total length wraps around, or it is the length that is returned as -1. -/
theorem not_queueStep_of_wrapped (hs : s.Holds) (hbs : bs.length < 0x100000000)
    (hfit : (s.buf.len + bs.length) % 0x100000000 ≤ s.buf.cap)
    (hge : 0xFFFFFFFF ≤ s.buf.len + bs.length) : ¬ s.QueueStep (.offer bs) := by
  have hle : s.buf.len ≤ s.buf.cap := s.buf.len_le
  have hcap := hs.cap_lt
  have hrun : (bufferCall s.buf (.offer bs)).run s.mem = _ := run_bufferAddData_added hfit
  have hrc : ((bufferCall s.buf (.offer bs)).run s.mem).1.1 = -1 ↔
      (s.buf.len + bs.length) % 0x100000000 = 0xFFFFFFFF := by
    rw [hrun]
    exact intOf_eq_neg_one (Nat.mod_lt _ (by decide))
  intro h
  have hiff := h.rejects
  rw [hrc, rejects_offer_iff hs] at hiff
  rcases Nat.lt_or_ge (s.buf.len + bs.length) 0x100000000 with hlt | hwrap
  · have := hiff.mp (by omega)
    omega
  · have := hiff.mpr (by omega)
    omega

end Offer

section Take

variable {s : BufferRun} {n : Nat}

/-- Only the terminator can be outside the block. -/
theorem queueStep_take_iff (hs : s.Holds) (hn : n ≤ s.buf.len) :
    s.QueueStep (.take n) ↔ s.NoCorner (.take n) := by
  have hle : s.buf.len ≤ s.buf.cap := s.buf.len_le
  have hpos := hs.cap_pos
  have hlog : (s.step (.take n)).mem.log =
      [⟨.bufferData, some s.buf.cap, (s.buf.len - n : Nat), 1⟩,
        ⟨.bufferData, some s.buf.cap, 0, (s.buf.len - n : Nat)⟩,
        ⟨.bufferData, some s.buf.cap, n, (s.buf.len - n : Nat)⟩] ++ s.mem.log := rfl
  have hinside : s.mem.AccessesInside (s.step (.take n)).mem ↔ s.NoCorner (.take n) := by
    rw [Mem.accessesInside_iff hlog]
    show _ ↔ n ≠ 0 ∨ s.buf.len < s.buf.cap
    constructor
    · intro hall
      rcases (hall _ List.mem_cons_self).2 with h | ⟨_, h⟩
      · cases h
      · simp only [Option.getD_some] at h
        omega
    · intro hcorner a ha
      simp only [List.mem_cons, List.not_mem_nil, or_false] at ha
      rcases ha with rfl | rfl | rfl
      all_goals exact Access.inBounds_of_le (by omega) (by omega) (by omega)
  constructor
  · exact fun h => hinside.mp h.inside
  · intro hcorner
    refine ⟨Nat.le_trans (Nat.sub_le _ _) hle, ?_, ?_, fun h => h.elim, hinside.mpr hcorner⟩
    · show (s.buf.shrink n).contents = (s.queue.take n).items
      rw [contents_shrink, Queue.items_take, hs.contents]
    · exact iff_of_false (show ¬ (0 : Int) = -1 by decide) fun h => h.elim

end Take

end BufferQueueLemmas

open BufferQueueLemmas

/-- The calls that do what the queue does. -/
theorem queueStep_iff {s : BufferRun} (hs : s.Holds) (op : BufferOp) (hop : s.Allowed op) :
    s.QueueStep op ↔ s.NoCorner op := by
  cases op with
  | offer bs =>
    constructor
    · intro h
      refine Decidable.byContradiction fun hcorner => ?_
      rw [BufferRun.NoCorner, not_or, Nat.not_lt, Nat.not_lt] at hcorner
      exact not_queueStep_of_wrapped hs hop.2 hcorner.2 hcorner.1 h
    · rintro (hlt | hbig)
      · rcases Nat.lt_or_ge s.buf.cap (s.buf.len + bs.length) with hbig | hfit
        · refine queueStep_of_refused hs ?_
          rwa [Nat.mod_eq_of_lt (by omega)]
        · exact queueStep_of_added hs hfit hlt
      · exact queueStep_of_refused hs hbig
  | take n => exact queueStep_take_iff hs hop

/-- The buffer stays in its block. -/
theorem cap_step (s : BufferRun) (op : BufferOp) : (s.step op).buf.cap = s.buf.cap := by
  cases op with
  | offer bs =>
    rcases Nat.lt_or_ge s.buf.cap ((s.buf.len + bs.length) % 0x100000000) with h | h
    · show ((bufferAddData s.buf bs).run s.mem).1.2.cap = _
      rw [run_bufferAddData_refused h]
    · show ((bufferAddData s.buf bs).run s.mem).1.2.cap = _
      rw [run_bufferAddData_added h]
      exact (sameBlock_append _ _ h).2.2
  | take n => exact (sameBlock_shrink _ _).2.2

/-! ## All runs -/

namespace BufferQueueLemmas

theorem holds_step {s : BufferRun} (hs : s.Holds) {op : BufferOp} (h : s.QueueStep op) :
    (s.step op).Holds :=
  ⟨h.contents, by rw [cap_step]; exact hs.cap_pos, by rw [cap_step]; exact hs.cap_lt⟩

/-- A new buffer is an empty queue. -/
theorem holds_mallocBuffer {e : Env} {c : Nat} {m m' : Mem} {buf : Buffer} (hc : 0 < c)
    (hlt : c < 0x100000000) (h : (mallocBuffer e c).run m = (some buf, m')) :
    (⟨buf, m', .empty⟩ : BufferRun).Holds := by
  have hres := mallocBuffer_result e c m
  rw [h] at hres
  cases hres with
  | made _ _ _ hcap hlen =>
    refine ⟨?_, by rw [hcap]; exact hc, by rw [hcap]; exact hlt⟩
    exact List.length_eq_zero_iff.mp (by rw [length_contents, hlen])

end BufferQueueLemmas

/-- A run of calls on a new buffer is a run of the queue exactly when no call of it
meets one of the two corners. -/
theorem receive_buffer_queue (e : Env) (c : Nat) (m m' : Mem) (buf : Buffer) (ops : List BufferOp)
    (hc : 0 < c) (hlt : c < 0x100000000) (hbuf : (mallocBuffer e c).run m = (some buf, m'))
    (hops : Along BufferRun.step BufferRun.Allowed ops ⟨buf, m', .empty⟩) :
    Along BufferRun.step BufferRun.QueueStep ops ⟨buf, m', .empty⟩ ↔
      Along BufferRun.step BufferRun.NoCorner ops ⟨buf, m', .empty⟩ := by
  refine along_iff (I := BufferRun.Holds) ?_ ?_ (holds_mallocBuffer hc hlt hbuf) hops
  · exact fun s op hs hop => queueStep_iff hs _ hop
  · exact fun s op hs hop hcorner => holds_step hs ((queueStep_iff hs _ hop).mpr hcorner)

theorem receive_buffer_queue_of_four :
    ∃ buf m', (mallocBuffer Env.benign 4).run Mem.empty = (some buf, m') ∧
      Along BufferRun.step BufferRun.QueueStep [.offer [1, 2, 3], .take 2, .offer [5, 6]]
        ⟨buf, m', .empty⟩ :=
  ⟨_, _, rfl, (receive_buffer_queue Env.benign 4 Mem.empty _ _ _ (by decide) (by decide) rfl
    (by decide)).mpr (by decide)⟩

/-- Four bytes fill a buffer of four, and the terminator is stored behind them. -/
theorem full_buffer_shrunk_by_nothing :
    ∃ buf m', (mallocBuffer Env.benign 4).run Mem.empty = (some buf, m') ∧
      Along BufferRun.step BufferRun.Allowed [.offer [1, 2, 3, 4], .take 0] ⟨buf, m', .empty⟩ ∧
      ¬ Along BufferRun.step BufferRun.QueueStep [.offer [1, 2, 3, 4], .take 0]
        ⟨buf, m', .empty⟩ := by
  refine ⟨_, _, rfl, by decide, fun h => ?_⟩
  have hholds := holds_mallocBuffer (e := Env.benign) (c := 4) (m := Mem.empty) (by decide)
    (by decide) rfl
  have hcorner := (queueStep_iff (holds_step hholds h.1) (.take 0) (Nat.zero_le _)).mp h.2.1
  exact absurd hcorner (by decide)

end EspushW60x
