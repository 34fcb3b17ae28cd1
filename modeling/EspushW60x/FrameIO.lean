import EspushW60x.Codec

/-!
# Frames on the socket

`write_frame` sends the image of a frame from a heap block that it releases on
every exit. `recv_frame` asks for the 4 bytes of the head, allocates a scratch
block for the whole frame and one byte, asks for the rest of the frame, and
decodes the scratch block.

Results:
* `writeFrame_result`: the ways a call of `write_frame` ends;
* `run_recvFrame_head`, `_refused`, `_short`, `_delivered`: the exits of
  `recv_frame`. The names `recvHead`, `recvLeft` (the header), `recvBody` and
  `recvBuf` (the scratch block when it is decoded) are for what the two calls of
  `recv` find.
-/

namespace EspushW60x

open Lib

/-! ## `write_frame` -/

theorem frameLength_of_le {f : Frame} (h : f.length + 4 ≤ maxFrameLeft) :
    frameLength f = f.length + 4 := by
  simp only [maxFrameLeft] at h
  rw [frameLength, intOf_of_lt (by omega)]
  omega

/-- `_write_frame_buf` sends the image of the frame. -/
theorem run_writeFrameBuf {e : Env} {f : Frame} (buf : Block) {w : World}
    (hdata : f.length ≤ f.data.bytes.length) (hmax : f.length + 4 ≤ maxFrameLeft)
    (hbuf : buf.bytes.length = f.length + 4) :
    ∃ out log, (writeFrameBuf e f buf).run w =
      ((e.sendRc w.sends (f.length + 4), out), { w with
        mem := ⟨w.mem.heap, log⟩
        sends := w.sends + 1
        wire := w.wire ++ f.message.image.take (e.sendRc w.sends (f.length + 4)).toNat }) := by
  simp only [maxFrameLeft] at hmax
  have hpay : f.message.payload.length = f.length := by
    rw [Frame.message, List.length_take, Nat.min_eq_left hdata]
  have hlen : f.message.image.length = f.length + 4 := by rw [length_image, hpay]
  obtain ⟨hrc, hbytes⟩ := serializeFrame_stores f buf w.mem (by omega) hdata
    (by omega)
  have hheap : ((serializeFrame f buf).run w.mem).2.heap = w.mem.heap := by rfl
  rw [← hbuf, List.drop_length, List.append_nil] at hbytes
  generalize hs : (serializeFrame f buf).run w.mem = s at hrc hbytes hheap
  have hpos : ¬ s.1.1 < 0 := by omega
  have hnat : s.1.1.toNat = f.length + 4 := by omega
  refine ⟨s.1.2, s.2.log, ?_⟩
  simp only [writeFrameBuf, Prog.run_bind, run_liftMem, hs, if_neg hpos, run_send, Prog.run_pure,
    hnat, hbytes, List.take_of_length_le (Nat.le_of_eq hlen), hlen]
  rw [← hheap]

/-- The ways a call of `write_frame` ends, for a frame that is not too long. -/
inductive WriteFrameResult (e : Env) (f : Frame) (w : World) : Int × World → Prop
  | refused :
      e.grant w.mem.heap.next .wireBuf (f.length + 4) = false →
      WriteFrameResult e f w (-1, { w with mem := { w.mem with heap := w.mem.heap.refuse } })
  | sent (log : List Access) :
      e.grant w.mem.heap.next .wireBuf (f.length + 4) = true →
      WriteFrameResult e f w
        (e.sendRc w.sends (f.length + 4), { w with
          mem := ⟨(w.mem.heap.acquire .wireBuf).release w.mem.heap.next, log⟩
          sends := w.sends + 1
          wire := w.wire ++ f.message.image.take (e.sendRc w.sends (f.length + 4)).toNat })

theorem writeFrame_result {e : Env} {f : Frame} {w : World}
    (hdata : f.length ≤ f.data.bytes.length) (hmax : f.length + 4 ≤ maxFrameLeft) :
    WriteFrameResult e f w ((writeFrame e f).run w) := by
  have hlen := frameLength_of_le hmax
  simp only [maxFrameLeft] at hmax
  have hfits : ¬ ((f.length : Int) + 4 > (maxFrameLeft : Int)) := by
    simp only [maxFrameLeft]
    omega
  cases hg : e.grant w.mem.heap.next .wireBuf (f.length + 4) with
  | false =>
    have hrun : (writeFrame e f).run w =
        (-1, { w with mem := { w.mem with heap := w.mem.heap.refuse } }) := by
      simp only [writeFrame, lift_world, hlen, if_neg hfits, Prog.run_bind, run_liftMem, run_espushMalloc,
        hg, Bool.false_eq_true, if_false, Prog.run_pure]
    rw [hrun]
    exact .refused hg
  | true =>
    obtain ⟨out, log, hbuf⟩ := run_writeFrameBuf (e := e)
      (freshBlock e w.mem.heap.next (f.length + 4))
      (w := { w with mem := { w.mem with heap := w.mem.heap.acquire .wireBuf } }) hdata
      (by simp only [maxFrameLeft]; omega) (by rw [length_freshBlock]; omega)
    have hrun : (writeFrame e f).run w =
        (e.sendRc w.sends (f.length + 4), { w with
          mem := ⟨(w.mem.heap.acquire .wireBuf).release w.mem.heap.next, log⟩
          sends := w.sends + 1
          wire := w.wire ++ f.message.image.take (e.sendRc w.sends (f.length + 4)).toNat }) := by
      simp only [writeFrame, lift_world, hlen, if_neg hfits, Prog.run_bind, run_liftMem, run_espushMalloc,
        hg, if_true, hbuf, run_espushFree, Prog.run_pure, addr_freshBlock]
    rw [hrun]
    exact .sent log hg

/-! ## `recv_frame` -/

/-- What the first `recv` finds. -/
def recvHead (w : World) : Int × Bytes × List Delivery := nextDelivery 4 w.inbox

/-- The header of the frame. -/
def recvLeft (w : World) : Nat := ofBe16 (recvHead w).2.1

/-- What the second `recv` finds. -/
def recvBody (w : World) : Int × Bytes × List Delivery :=
  nextDelivery ((recvLeft w : Int) - 2) (recvHead w).2.2

/-- The scratch block when it is decoded. -/
def recvBuf (e : Env) (w : World) : Block :=
  ((freshBlock e w.mem.heap.next (recvLeft w + 2 + 1 : Nat)).store 0 (recvHead w).2.1).store 4
    (recvBody w).2.1

/-- The accesses up to the decoding. -/
def recvLog (w : World) : List Access :=
  [⟨.scratch, some (recvLeft w + 2 + 1), 4, (recvLeft w : Int) - 2⟩,
    ⟨.scratch, some (recvLeft w + 2 + 1), 0, 4⟩, ⟨.head, some 4, 0, 4⟩]

/-- The scratch block is granted and both calls of `recv` find what they ask for. -/
def RecvDelivered (e : Env) (w : World) : Prop :=
  (recvHead w).1 = 4 ∧ e.grant w.mem.heap.next .scratch (recvLeft w + 2 + 1 : Nat) = true ∧
    (recvBody w).1 = (recvLeft w : Int) - 2

instance (e : Env) (w : World) : Decidable (RecvDelivered e w) :=
  inferInstanceAs (Decidable (_ ∧ _ ∧ _))

theorem nextDelivery_rc (len : Int) (inbox : List Delivery) :
    (nextDelivery len inbox).2.1.length = (nextDelivery len inbox).1.toNat := by
  match inbox with
  | [] => rfl
  | .error n :: _ =>
    simp only [nextDelivery, List.length_nil]
    omega
  | .segment bs :: _ => simp [nextDelivery]

theorem length_recvHead {w : World} (h : (recvHead w).1 = 4) : (recvHead w).2.1.length = 4 := by
  have := nextDelivery_rc 4 w.inbox
  rw [recvHead] at h ⊢
  rw [this, h]
  rfl

@[simp] theorem length_recvBuf (e : Env) (w : World) :
    (recvBuf e w).bytes.length = recvLeft w + 3 := by
  rw [recvBuf, Block.bytes_store, length_patch, Block.bytes_store, length_patch, length_freshBlock]
  rfl

/-- The scratch block starts with the header that was received. -/
theorem ofBe16_recvBuf {e : Env} {w : World} (h : (recvHead w).1 = 4) :
    ofBe16 (recvBuf e w).bytes = recvLeft w := by
  have hlen := length_recvHead h
  have h2 : ofBe16 ((recvBuf e w).bytes.take 2) = recvLeft w := by
    rw [recvBuf, Block.bytes_store, take_patch_of_le _ (by decide), Block.bytes_store,
      take_patch_zero (by omega) (by rw [length_freshBlock]; omega), ofBe16_take (Nat.le_refl 2)]
    rfl
  rwa [ofBe16_take (Nat.le_refl 2)] at h2

section Runs

variable {e : Env} {site : Site} {f : Frame} {w : World}

/-- The head did not arrive in one piece. -/
theorem run_recvFrame_head (h : (recvHead w).1 ≠ 4) :
    (recvFrame e site f).run w =
      ((-1, f), { w with
        mem := { w.mem with log := ⟨.head, some 4, 0, 4⟩ :: w.mem.log }
        inbox := (recvHead w).2.2 }) := by
  simp only [recvFrame, Prog.run_bind, run_recv, Prog.run_ite, Prog.run_pure]
  rw [if_pos (.inr h)]
  rfl

/-- The test of the first return code is passed. -/
theorem recvHead_passes (h : (recvHead w).1 = 4) :
    ¬ ((nextDelivery 4 w.inbox).1 < 0 ∨ (nextDelivery 4 w.inbox).1 ≠ 4) := by
  rw [recvHead] at h
  omega

/-- The scratch block is refused. -/
theorem run_recvFrame_refused (h : (recvHead w).1 = 4)
    (hg : e.grant w.mem.heap.next .scratch (recvLeft w + 2 + 1 : Nat) = false) :
    (recvFrame e site f).run w =
      ((-1, f), { w with
        mem := ⟨w.mem.heap.refuse, ⟨.head, some 4, 0, 4⟩ :: w.mem.log⟩
        inbox := (recvHead w).2.2 }) := by
  rw [recvLeft, recvHead] at hg
  simp only [recvFrame, Prog.run_bind, run_recv, if_neg (recvHead_passes h), run_liftMem, run_espushMalloc, hg,
    Bool.false_eq_true, if_false, Prog.run_pure]
  rfl

/-- The rest of the frame did not arrive in one piece. -/
theorem run_recvFrame_short (h : (recvHead w).1 = 4)
    (hg : e.grant w.mem.heap.next .scratch (recvLeft w + 2 + 1 : Nat) = true)
    (hbody : (recvBody w).1 ≠ (recvLeft w : Int) - 2) :
    (recvFrame e site f).run w =
      ((-1, f), { w with
        mem := ⟨(w.mem.heap.acquire .scratch).release w.mem.heap.next, recvLog w ++ w.mem.log⟩
        inbox := (recvBody w).2.2 }) := by
  rw [recvLeft, recvHead] at hg
  rw [recvBody, recvLeft, recvHead] at hbody
  simp only [recvFrame, Prog.run_bind, run_recv, if_neg (recvHead_passes h), run_liftMem, run_espushMalloc, hg,
    if_true, run_touch, if_pos hbody, run_espushFree, Prog.run_pure, Block.addr_store,
    addr_freshBlock, Block.bytes_store, length_patch, length_freshBlock, Int.toNat_natCast]
  rfl

/-- The scratch block is decoded. It is freed only when that fails. -/
theorem run_recvFrame_delivered (h : RecvDelivered e w) {r : (Int × Frame) × Mem}
    (hr : (deserializeFrame e site (recvBuf e w).bytes (recvLeft w + 2 + 1) f).run
      ⟨w.mem.heap.acquire .scratch, recvLog w ++ w.mem.log⟩ = r) :
    (recvFrame e site f).run w =
      if r.1.1 < 0 then
        ((-1, r.1.2), { w with
          mem := { r.2 with heap := r.2.heap.release w.mem.heap.next }
          inbox := (recvBody w).2.2 })
      else (r.1, { w with mem := r.2, inbox := (recvBody w).2.2 }) := by
  obtain ⟨h, hg, hbody⟩ := h
  rw [recvLeft, recvHead] at hg
  rw [recvBody, recvLeft, recvHead] at hbody
  subst hr
  simp only [recvFrame, Prog.run_bind, run_recv, if_neg (recvHead_passes h), run_liftMem, run_espushMalloc, hg,
    if_true, run_touch, if_neg (not_not_intro hbody), Prog.run_ite, run_espushFree, Prog.run_pure,
    Block.addr_store, addr_freshBlock, Block.bytes_store, length_patch, length_freshBlock,
    Int.toNat_natCast, recvBuf, recvLog, recvBody, recvLeft, recvHead, List.cons_append,
    List.nil_append]

variable (e site f w) in
/-- The ways a call of `recv_frame` ends. Whenever it returns an error, what is
live is what was live before; a frame that was received leaves its scratch block
behind. -/
inductive RecvFrameResult : (Int × Frame) × World → Prop
  | short (heap : Ledger Kind) (log : List Access) (inbox : List Delivery) :
      ¬ (RecvDelivered e w ∧ recvLeft w ≤ maxFrameLeft) → w.mem.heap.Extends heap [] →
      RecvFrameResult ((-1, f), { w with mem := ⟨heap, log⟩, inbox := inbox })
  | refused (heap : Ledger Kind) (log : List Access) :
      RecvDelivered e w → recvLeft w ≤ maxFrameLeft → recvLeft w ≠ 2 →
      e.grant (w.mem.heap.next + 1) (.body site) ((recvLeft w : Int) - 2) = false →
      w.mem.heap.Extends heap [] →
      RecvFrameResult
        ((-1, { withHeader (recvBuf e w).bytes f with dataFlag := .dyn, data := .null }),
          { w with mem := ⟨heap, log⟩, inbox := (recvBody w).2.2 })
  | empty (log : List Access) : RecvDelivered e w → recvLeft w = 2 →
      RecvFrameResult
        ((0, { withHeader (recvBuf e w).bytes f with
            dataFlag := .static
            data := (f.data.store 0 []).store 0 [0] }),
          { w with mem := ⟨w.mem.heap.acquire .scratch, log⟩, inbox := (recvBody w).2.2 })
  | body (log : List Access) : RecvDelivered e w → recvLeft w ≤ maxFrameLeft → 2 < recvLeft w →
      e.grant (w.mem.heap.next + 1) (.body site) ((recvLeft w : Int) - 2) = true →
      RecvFrameResult
        ((0, { withHeader (recvBuf e w).bytes f with
            dataFlag := .dyn
            data := .dyn
              ⟨w.mem.heap.next + 1, ((recvBuf e w).bytes.drop 4).take (recvLeft w - 2)⟩ }),
          { w with
            mem := ⟨(w.mem.heap.acquire .scratch).acquire (.body site), log⟩
            inbox := (recvBody w).2.2 })

variable (e site f w) in
theorem recvFrame_result : RecvFrameResult e site f w ((recvFrame e site f).run w) := by
  have hrefl := Ledger.Extends.refl w.mem.heap
  by_cases hhead : (recvHead w).1 = 4
  · cases hg : e.grant w.mem.heap.next .scratch (recvLeft w + 2 + 1 : Nat) with
    | false =>
      rw [run_recvFrame_refused hhead hg]
      refine .short _ _ _ ?_ hrefl.refuse
      rintro ⟨⟨_, hg', _⟩, _⟩
      rw [hg] at hg'
      cases hg'
    | true =>
      by_cases hbody : (recvBody w).1 = (recvLeft w : Int) - 2
      · have hdel : RecvDelivered e w := ⟨hhead, hg, hbody⟩
        have hleft := ofBe16_recvBuf (e := e) hhead
        have hdes := deserializeFrame_result e site (recvBuf e w).bytes (recvLeft w + 2 + 1) f
          ⟨w.mem.heap.acquire .scratch, recvLog w ++ w.mem.log⟩
          (by rw [length_recvBuf]; exact Nat.le_succ _)
        generalize hr : (deserializeFrame e site (recvBuf e w).bytes (recvLeft w + 2 + 1) f).run
          ⟨w.mem.heap.acquire .scratch, recvLog w ++ w.mem.log⟩ = r at hdes
        rw [run_recvFrame_delivered hdel hr]
        have hneg : (-1 : Int) < 0 := by decide
        have hpos : ¬ (0 : Int) < 0 := by decide
        cases hdes with
        | reject _ hrej =>
          rw [hleft] at hrej
          rw [if_pos hneg]
          refine .short _ _ _ ?_ (hrefl.acquire _).release
          rintro ⟨_, hmax⟩
          omega
        | refused _ _ hmax htwo hbody =>
          rw [hleft] at hmax htwo hbody
          rw [if_pos hneg]
          exact .refused _ _ hdel hmax htwo hbody (hrefl.acquire _).refuse.release
        | empty _ _ htwo =>
          rw [hleft] at htwo
          rw [if_neg hpos]
          exact .empty _ hdel htwo
        | body _ _ hmax htwo hbody =>
          rw [hleft] at hmax htwo hbody
          rw [if_neg hpos, hleft]
          exact .body _ hdel hmax htwo hbody
      · rw [run_recvFrame_short hhead hg hbody]
        exact .short _ _ _ (fun h => hbody h.1.2.2) (hrefl.acquire _).release
  · rw [run_recvFrame_head hhead]
    exact .short _ _ _ (fun h => hhead h.1.1) hrefl

end Runs

end EspushW60x
