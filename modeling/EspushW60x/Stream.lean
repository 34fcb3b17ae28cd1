import EspushW60x.EventLoop

/-!
# The received stream

A run of `async_sock_recv` is a sequence of readable events that goes on as long
as no call returns an error. This module has what one successful event does to
the buffer and to the frames handled (`asyncSockRecv_ok`), and from it what holds
after any number of them.

Results:
* `stream_conservation`: the bytes received are the frames handled, in order,
  followed by the contents of the buffer.
-/

namespace EspushW60x

open Lib EventLoopLemmas

/-- One readable event. It reports whether the connection goes on. -/
def sockStep (e : Env) (buf : Buffer) : Prog World (Bool × Buffer) := do
  let r ← asyncSockRecv e buf
  return (decide (0 ≤ r.1), r.2)

/-- The buffer that `resource_malloc` makes. -/
def Buffer.Fresh (buf : Buffer) : Prop := buf.cap = maxRecvBufferLength ∧ buf.len = 0

/-! ## One event -/

/-- What becomes of the bytes `c` in the buffer: they wait, or the first frame
among them is handled. -/
inductive Delivered (c : Bytes) (handled : List Message) : Bytes → List Message → Prop
  | waiting : ¬ frameFormat.HasFrame c → Delivered c handled c handled
  | extracted : frameFormat.HasFrame c → 2 ≤ ofBe16 c →
      Delivered c handled (c.drop (frameLen c)) (handled ++ [decode (c.take (frameLen c))])

/-- A call of `async_sock_recv` that returns no error. -/
structure SockOk (buf : Buffer) (w : World) (buf' : Buffer) (w' : World) : Prop where
  arrived : (arrival w).2.1 ≠ []
  fits : (buf.contents ++ (arrival w).2.1).length < 252
  sameBlock : buf.SameBlock buf'
  inbox : w'.inbox = (arrival w).2.2
  delivered : Delivered (buf.contents ++ (arrival w).2.1) w.handled buf'.contents w'.handled

theorem asyncSockRecv_ok {e : Env} {buf : Buffer} {w : World}
    (hcap : buf.cap = maxRecvBufferLength) (hok : 0 ≤ ((asyncSockRecv e buf).run w).1.1) :
    SockOk buf w ((asyncSockRecv e buf).run w).1.2 ((asyncSockRecv e buf).run w).2 := by
  have h := asyncSockRecv_result (e := e) (w := w) hcap
  have hneg : ¬ (0 : Int) ≤ -1 := by decide
  generalize (asyncSockRecv e buf).run w = r at h hok
  cases h with
  | closed => exact absurd hok hneg
  | overflow => exact absurd hok hneg
  | buffered buf1 log r hgot hfit hsame hc hres =>
    have hlen1 : (buf.contents ++ (arrival w).2.1).length = buf1.len := by
      rw [← hc, length_contents]
    cases hres with
    | full => exact absurd hok hneg
    | refused => exact absurd hok hneg
    | malformed => exact absurd hok hneg
    | waiting log hlt hno =>
      refine ⟨hgot, by rw [hlen1]; exact hlt, hsame, rfl, ?_⟩
      rw [hc] at hno ⊢
      exact .waiting hno
    | handled f heap log r hlt hfr _ hdec _ hmsg hf =>
      obtain ⟨hin, _, hhandled⟩ := HandleFrameResult.frame hf
      split at hok
      · exact absurd hok hneg
      · next hrc =>
        rw [if_neg hrc]
        refine ⟨hgot, by rw [hlen1]; exact hlt, hsame.trans (sameBlock_shrink _ _), hin, ?_⟩
        rw [hhandled, hmsg, contents_shrink, hc]
        rw [hc] at hfr hdec
        exact .extracted hfr hdec.1

/-! ## Chunks -/

/-- Chunks as they arrive on the socket. -/
def deliveries (chunks : List Bytes) : List Delivery := chunks.map .segment

/-- Chunks of 1 to 128 bytes. -/
def Readable (chunks : List Bytes) : Prop := ∀ c ∈ chunks, 1 ≤ c.length ∧ c.length ≤ 128

namespace StreamLemmas

/-- A chunk of at most 128 bytes is read whole. -/
theorem arrival_chunk {w : World} {c : Bytes} {rest : List Bytes} (hc : c.length ≤ 128)
    (hw : w.inbox = deliveries (c :: rest)) :
    (arrival w).2.1 = c ∧ (arrival w).2.2 = deliveries rest := by
  have htake : c.take 128 = c := List.take_of_length_le hc
  rw [arrival, hw]
  simp [deliveries, nextDelivery, htake]

theorem arrival_nil {w : World} (hw : w.inbox = deliveries []) : (arrival w).2.1 = [] := by
  rw [arrival, hw]
  rfl

theorem run_sockStep (e : Env) (buf : Buffer) (w : World) :
    (sockStep e buf).run w =
      ((decide (0 ≤ ((asyncSockRecv e buf).run w).1.1), ((asyncSockRecv e buf).run w).1.2),
        ((asyncSockRecv e buf).run w).2) := by rfl

/-- An event that goes on. -/
theorem sockStep_ok {e : Env} {buf : Buffer} {w : World} (hcap : buf.cap = maxRecvBufferLength)
    (hok : ((sockStep e buf).run w).1.1 = true) :
    SockOk buf w ((sockStep e buf).run w).1.2 ((sockStep e buf).run w).2 := by
  rw [run_sockStep] at hok ⊢
  exact asyncSockRecv_ok hcap (of_decide_eq_true hok)

/-- The part of every run invariant that says where the chunks are: `k` of them
were received. -/
structure Position (chunks : List Bytes) (k : Nat) (buf : Buffer) (w : World) : Prop where
  cap : buf.cap = maxRecvBufferLength
  inbox : w.inbox = deliveries (chunks.drop k)

/-- An event that goes on received the next chunk. -/
theorem Position.step {e : Env} {chunks : List Bytes} {k : Nat} {buf : Buffer} {w : World}
    (hchunks : Readable chunks) (h : Position chunks k buf w)
    (hok : ((sockStep e buf).run w).1.1 = true) :
    ∃ c, k < chunks.length ∧ chunks.take (k + 1) = chunks.take k ++ [c] ∧
      Position chunks (k + 1) ((sockStep e buf).run w).1.2 ((sockStep e buf).run w).2 ∧
      (buf.contents ++ c).length < 252 ∧
      Delivered (buf.contents ++ c) w.handled ((sockStep e buf).run w).1.2.contents
        ((sockStep e buf).run w).2.handled := by
  have hs := sockStep_ok h.cap hok
  have hin := h.inbox
  cases hd : chunks.drop k with
  | nil =>
    rw [hd] at hin
    exact absurd (arrival_nil hin) hs.arrived
  | cons c rest =>
    rw [hd] at hin
    obtain ⟨htake, hdrop, hk⟩ := take_succ_of_drop hd
    have hmem : c ∈ chunks := List.mem_of_mem_drop (hd ▸ List.mem_cons_self)
    obtain ⟨hc, hrest⟩ := arrival_chunk (hchunks c hmem).2 hin
    have hfits := hs.fits
    have hdel := hs.delivered
    rw [hc] at hfits hdel
    refine ⟨c, hk, htake, ⟨hs.sameBlock.2.2.trans h.cap, ?_⟩, hfits, hdel⟩
    rw [hs.inbox, hrest, hdrop]

end StreamLemmas

open StreamLemmas

theorem mallocBuffer_fresh {e : Env} {m : Mem} {buf : Buffer}
    (h : ((mallocBuffer e maxRecvBufferLength).run m).1 = some buf) : buf.Fresh := by
  have hres := mallocBuffer_result e maxRecvBufferLength m
  generalize (mallocBuffer e maxRecvBufferLength).run m = r at h hres
  cases hres with
  | noStruct => cases h
  | noData => cases h
  | made buf' _ _ hcap hlen =>
    cases h
    exact ⟨hcap, hlen⟩

/-! ## Conservation -/

/-- After any run of readable events, the bytes received are the frames handled,
in order, followed by the contents of the buffer. -/
theorem stream_conservation (e : Env) (chunks : List Bytes) (buf : Buffer) (w : World) (n : Nat)
    (hchunks : Readable chunks) (hbuf : buf.Fresh) (hinbox : w.inbox = deliveries chunks)
    (hok : ((Prog.repeatWhile (sockStep e) n buf).run w).1.1 = true) :
    ∃ segs : List Bytes, (∀ s ∈ segs, frameFormat.IsFrame s) ∧
      (chunks.take n).flatten =
        segs.flatten ++ ((Prog.repeatWhile (sockStep e) n buf).run w).1.2.contents ∧
      ((Prog.repeatWhile (sockStep e) n buf).run w).2.handled = w.handled ++ segs.map decode := by
  have hinv := Prog.repeatWhile_invariant (sockStep e) (n := n) (k := 0) (a := buf) (s := w)
    (fun k buf' w' => Position chunks k buf' w' ∧ ∃ segs : List Bytes,
      (∀ s ∈ segs, frameFormat.IsFrame s) ∧ (chunks.take k).flatten = segs.flatten ++ buf'.contents ∧
      w'.handled = w.handled ++ segs.map decode) ?_ ?_ hok
  · rw [Nat.zero_add] at hinv
    exact hinv.2
  · rintro k buf1 w1 ⟨hpos, segs, hsegs, hbytes, hhandled⟩ hstep
    obtain ⟨c, _, htake, hpos', _, hdel⟩ := hpos.step hchunks hstep
    refine ⟨hpos', ?_⟩
    generalize hc' : ((sockStep e buf1).run w1).1.2.contents = c' at hdel
    generalize hh' : ((sockStep e buf1).run w1).2.handled = h' at hdel
    have hrecv : (chunks.take (k + 1)).flatten = segs.flatten ++ (buf1.contents ++ c) := by
      rw [htake, List.flatten_append, hbytes, List.append_assoc]
      simp
    cases hdel with
    | waiting => exact ⟨segs, hsegs, hrecv, hhandled⟩
    | extracted hfr hleft =>
      -- the first frame of the buffer is the next segment of the stream
      refine ⟨segs ++ [(buf1.contents ++ c).take (frameLen (buf1.contents ++ c))], ?_, ?_, ?_⟩
      · intro s hs
        rcases List.mem_append.mp hs with hs | hs
        · exact hsegs s hs
        · rw [List.mem_singleton.mp hs]
          exact hfr.isFrame_take (Nat.add_le_add_right hleft 2)
      · rw [hrecv, List.flatten_append, List.append_assoc]
        simp
      · rw [hhandled, List.map_append, List.append_assoc]
        rfl
  · refine ⟨⟨hbuf.1, hinbox⟩, [], ?_, ?_, ?_⟩
    · exact fun s hs => absurd hs List.not_mem_nil
    · have hnil : buf.contents = [] := List.length_eq_zero_iff.mp (by rw [length_contents, hbuf.2])
      rw [hnil]
      rfl
    · simp

/-- An empty buffer of 256 bytes. -/
def emptyBuffer : Buffer := ⟨0, ⟨1, List.replicate 256 0⟩, 0, Nat.zero_le _⟩

theorem emptyBuffer_fresh : emptyBuffer.Fresh := ⟨List.length_replicate, rfl⟩

/-- A frame that arrives in two pieces, cut in its header. -/
theorem stream_conservation_split_frame :
    ∃ segs : List Bytes, (∀ s ∈ segs, frameFormat.IsFrame s) ∧
      [[0, 3, 0x80], [7, 1]].flatten =
        segs.flatten ++ ((Prog.repeatWhile (sockStep Env.benign) 2 emptyBuffer).run
          (World.start (deliveries [[0, 3, 0x80], [7, 1]]))).1.2.contents ∧
      ((Prog.repeatWhile (sockStep Env.benign) 2 emptyBuffer).run
        (World.start (deliveries [[0, 3, 0x80], [7, 1]]))).2.handled = [] ++ segs.map decode :=
  stream_conservation Env.benign [[0, 3, 0x80], [7, 1]] emptyBuffer _ 2
    (by unfold Readable; decide) emptyBuffer_fresh rfl (by decide +kernel)

end EspushW60x
