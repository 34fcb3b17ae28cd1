import EspushW60x.Stream
import EspushW60x.Lib.Service

/-!
# One extraction per readable event

Each readable event brings one chunk and takes at most one frame out of the
buffer. The number of frames handled after `j` chunks is therefore `served` of
`Lib.Service`: the frames complete in the first `j` chunks are the customers,
the chunks are the slots.

Two promises hang on how the stream is cut into chunks:

* `chunking_independence`: every frame is handled by the end exactly when no
  final stretch of chunks completes more frames than it has chunks;
* `no_spurious_disconnect`: no call returns an error exactly when the backlog
  never reaches 252 bytes, the size from which `buffer_is_full` reports an error
  before a frame is extracted.
-/

namespace EspushW60x

open Lib EventLoopLemmas StreamLemmas
open LengthFormat (completeIn completeIn_zero completeIn_mono completeIn_flatten_length
  completeIn_le_length next_frame)

/-- The frames of a stream. -/
def images (ms : List Message) : List Bytes := ms.map Message.image

/-- The frames complete in the first `j` chunks. -/
def completeAfter (ms : List Message) (chunks : List Bytes) (j : Nat) : Nat :=
  completeIn (images ms) (chunks.take j).flatten.length

/-- The frames handled after `j` chunks. -/
def handledAfter (ms : List Message) (chunks : List Bytes) (j : Nat) : Nat :=
  served (completeAfter ms chunks) j

/-- Payloads short enough for the 16-bit length. -/
def Short (ms : List Message) : Prop := ∀ m ∈ ms, m.payload.length + 2 < 65536

/-! ## Frames handled -/

namespace ChunkingLemmas

variable {ms : List Message} {chunks : List Bytes}

theorem isFrame_images (h : Short ms) : ∀ f ∈ images ms, frameFormat.IsFrame f := by
  intro f hf
  obtain ⟨m, hm, rfl⟩ := List.mem_map.mp hf
  exact isFrame_image (h m hm)

theorem map_decode_images (ms : List Message) : (images ms).map decode = ms := by
  rw [images, List.map_map]
  exact (List.map_congr_left fun m _ => decode_image m).trans (List.map_id _)

theorem completeAfter_zero (h : Short ms) : completeAfter ms chunks 0 = 0 :=
  completeIn_zero (isFrame_images h)

theorem completeAfter_mono (j : Nat) :
    completeAfter ms chunks j ≤ completeAfter ms chunks (j + 1) := by
  refine completeIn_mono ?_
  have : chunks.take j <+: chunks.take (j + 1) := List.take_prefix_take_left (Nat.le_succ j)
  obtain ⟨t, ht⟩ := this
  rw [← ht, List.flatten_append, List.length_append]
  exact Nat.le_add_right _ _

theorem handledAfter_le (j : Nat) : handledAfter ms chunks j ≤ (images ms).length :=
  Nat.le_trans (served_le_arrived completeAfter_mono j) (completeIn_le_length _ _)

/-- The state after `k` chunks of a stream of frames: `handledAfter` frames were
handled, and the buffer has the rest of what was received. -/
structure Progress (ms : List Message) (chunks : List Bytes) (handled : List Message) (k : Nat)
    (buf : Buffer) (w : World) : Prop where
  position : Position chunks k buf w
  received : (chunks.take k).flatten =
    ((images ms).take (handledAfter ms chunks k)).flatten ++ buf.contents
  frames : w.handled = handled ++ ms.take (handledAfter ms chunks k)

theorem Progress.start {buf : Buffer} {w : World} (hbuf : buf.Fresh)
    (hinbox : w.inbox = deliveries chunks) : Progress ms chunks w.handled 0 buf w := by
  have hnil : buf.contents = [] := List.length_eq_zero_iff.mp (by rw [length_contents, hbuf.2])
  refine ⟨⟨hbuf.1, hinbox⟩, ?_, ?_⟩
  · rw [hnil]
    simp [handledAfter, served]
  · simp [handledAfter, served]

/-- What is received with the next chunk is a prefix of the stream, and the frame
at its head is the next one. -/
theorem Progress.next {handled : List Message} {k : Nat} {buf : Buffer} {w : World} {c : Bytes}
    (hms : Short ms) (hstream : chunks.flatten <+: (images ms).flatten)
    (h : Progress ms chunks handled k buf w) (htake : chunks.take (k + 1) = chunks.take k ++ [c]) :
    (chunks.take (k + 1)).flatten =
        ((images ms).take (handledAfter ms chunks k)).flatten ++ (buf.contents ++ c) ∧
      (frameFormat.HasFrame (buf.contents ++ c) ↔
        handledAfter ms chunks k < completeAfter ms chunks (k + 1)) ∧
      (frameFormat.HasFrame (buf.contents ++ c) →
        (images ms).take (handledAfter ms chunks k + 1) =
          (images ms).take (handledAfter ms chunks k) ++
            [(buf.contents ++ c).take (frameLen (buf.contents ++ c))]) := by
  have hrecv : (chunks.take (k + 1)).flatten =
      ((images ms).take (handledAfter ms chunks k)).flatten ++ (buf.contents ++ c) := by
    rw [htake, List.flatten_append, h.received, List.append_assoc]
    simp
  have hprefix : ((images ms).take (handledAfter ms chunks k)).flatten ++ (buf.contents ++ c) <+:
      (images ms).flatten := by
    rw [← hrecv]
    refine List.IsPrefix.trans ?_ hstream
    exact ⟨(chunks.drop (k + 1)).flatten, by
      rw [← List.flatten_append, List.take_append_drop]⟩
  have hnext := next_frame (isFrame_images hms) (handledAfter_le k) hprefix
  refine ⟨hrecv, ?_, hnext.2⟩
  rw [hnext.1, ← hrecv]
  exact Iff.rfl

theorem take_images_decode {s : Nat} {t : Bytes}
    (h : (images ms).take (s + 1) = (images ms).take s ++ [t]) :
    ms.take (s + 1) = ms.take s ++ [decode t] := by
  have hmap := congrArg (List.map decode) h
  rw [List.map_append, List.map_take, List.map_take, map_decode_images] at hmap
  exact hmap

/-- A readable event that goes on. -/
theorem Progress.step {e : Env} {handled : List Message} {k : Nat} {buf : Buffer} {w : World}
    (hms : Short ms) (hstream : chunks.flatten <+: (images ms).flatten) (hchunks : Readable chunks)
    (h : Progress ms chunks handled k buf w) (hok : ((sockStep e buf).run w).1.1 = true) :
    Progress ms chunks handled (k + 1) ((sockStep e buf).run w).1.2
      ((sockStep e buf).run w).2 := by
  obtain ⟨c, _, htake, hpos, _, hdel⟩ := h.position.step hchunks hok
  obtain ⟨hrecv, hiff, hfirst⟩ := h.next hms hstream htake
  generalize hc' : ((sockStep e buf).run w).1.2.contents = c' at hdel
  generalize hh' : ((sockStep e buf).run w).2.handled = h' at hdel
  cases hdel with
  | waiting hno =>
    have hs : handledAfter ms chunks (k + 1) = handledAfter ms chunks k :=
      if_neg (mt hiff.mpr hno)
    exact ⟨hpos, by rw [hs, hc', hrecv], by rw [hs, hh', h.frames]⟩
  | extracted hfr =>
    have hs : handledAfter ms chunks (k + 1) = handledAfter ms chunks k + 1 :=
      if_pos (hiff.mp hfr)
    have htake' := hfirst hfr
    refine ⟨hpos, ?_, ?_⟩
    · rw [hs, htake', List.flatten_append, hc', hrecv, List.append_assoc]
      simp
    · rw [hs, take_images_decode htake', hh', h.frames, List.append_assoc]

end ChunkingLemmas

open ChunkingLemmas

/-- After `n` readable events that go on, `handledAfter` frames were handled. -/
theorem run_progress {e : Env} {ms : List Message} {chunks : List Bytes} {buf : Buffer} {w : World}
    {n : Nat} (hms : Short ms) (hstream : chunks.flatten <+: (images ms).flatten)
    (hchunks : Readable chunks) (hbuf : buf.Fresh) (hinbox : w.inbox = deliveries chunks)
    (hok : ((Prog.repeatWhile (sockStep e) n buf).run w).1.1 = true) :
    Progress ms chunks w.handled n ((Prog.repeatWhile (sockStep e) n buf).run w).1.2
      ((Prog.repeatWhile (sockStep e) n buf).run w).2 := by
  have hinv := Prog.repeatWhile_invariant (sockStep e) (Progress ms chunks w.handled)
    (fun _ _ _ h hstep => h.step hms hstream hchunks hstep) (Progress.start hbuf hinbox) hok
  rwa [Nat.zero_add] at hinv

/-! ## Chunking independence -/

/-- No final stretch of chunks completes more frames than it has chunks. -/
def KeepsUp (ms : List Message) (chunks : List Bytes) : Prop :=
  ∀ before after, chunks = before ++ after →
    ms.length ≤ completeIn (images ms) before.flatten.length + after.length

/-- In a run without errors, every frame is handled and no complete frame is left
exactly when no final stretch of chunks completes more frames than it has chunks. -/
theorem chunking_independence (e : Env) (ms : List Message) (chunks : List Bytes) (buf : Buffer)
    (w : World) (hms : ∀ m ∈ ms, 1 ≤ m.payload.length ∧ m.payload.length ≤ 120)
    (hchunks : Readable chunks) (hstream : chunks.flatten = (images ms).flatten)
    (hbuf : buf.Fresh) (hinbox : w.inbox = deliveries chunks)
    (hok : ((Prog.repeatWhile (sockStep e) chunks.length buf).run w).1.1 = true) :
    ((((Prog.repeatWhile (sockStep e) chunks.length buf).run w).2.handled = w.handled ++ ms ∧
        ¬ frameFormat.HasFrame
          ((Prog.repeatWhile (sockStep e) chunks.length buf).run w).1.2.contents) ↔
      KeepsUp ms chunks) := by
  have hshort : Short ms := fun m hm => by have := (hms m hm).2; omega
  have hrun := run_progress hshort (hstream ▸ List.prefix_refl _) hchunks hbuf hinbox hok
  generalize (Prog.repeatWhile (sockStep e) chunks.length buf).run w = r at hrun
  have hlen : (images ms).length = ms.length := List.length_map _
  have htotal : completeAfter ms chunks chunks.length = ms.length := by
    rw [completeAfter, List.take_length, hstream, completeIn_flatten_length, hlen]
  have hle : handledAfter ms chunks chunks.length ≤ ms.length := hlen ▸ handledAfter_le _
  have hkeeps : KeepsUp ms chunks ↔
      ∀ i, i ≤ chunks.length → ms.length ≤ completeAfter ms chunks i + (chunks.length - i) := by
    constructor
    · intro h i hi
      have := h (chunks.take i) (chunks.drop i) (List.take_append_drop i chunks).symm
      rwa [List.length_drop] at this
    · rintro h before after rfl
      have := h before.length (by rw [List.length_append]; exact Nat.le_add_right _ _)
      rwa [completeAfter, List.take_left' rfl, List.length_append, Nat.add_sub_cancel_left] at this
  have hserved := served_eq_total_iff (completeAfter_zero hshort) completeAfter_mono htotal
  rw [hkeeps, ← hserved]
  constructor
  · rintro ⟨hall, _⟩
    have hframes := hrun.frames
    rw [hall] at hframes
    have htake : ms = ms.take (handledAfter ms chunks chunks.length) :=
      List.append_cancel_left hframes
    have hl := congrArg List.length htake
    rw [List.length_take, Nat.min_eq_left hle] at hl
    exact hl.symm
  · intro hall
    have hh : handledAfter ms chunks chunks.length = ms.length := hall
    refine ⟨?_, ?_⟩
    · rw [hrun.frames, hh, List.take_length]
    · -- the buffer is empty
      have hrecv := hrun.received
      rw [hh, ← hlen, List.take_length, List.take_length, hstream] at hrecv
      have hnil : r.1.2.contents = [] := List.self_eq_append_right.mp hrecv
      rw [hnil]
      exact fun hf => absurd hf.1 (by decide)

/-- A heart response with a body of `n` bytes. -/
def heartResponse (n : Nat) : Message := ⟨mleHeartResponse, 0, List.replicate n 0⟩

/-- Two heart responses, each in a chunk of its own. -/
def twoResponses : List Message := [heartResponse 1, heartResponse 2]

theorem chunking_independence_one_each :
    let w := World.start (deliveries (images twoResponses))
    let r := (Prog.repeatWhile (sockStep Env.benign) (images twoResponses).length emptyBuffer).run w
    (r.2.handled = w.handled ++ twoResponses ∧ ¬ frameFormat.HasFrame r.1.2.contents) ↔
      KeepsUp twoResponses (images twoResponses) :=
  chunking_independence Env.benign twoResponses (images twoResponses) emptyBuffer
    (World.start (deliveries (images twoResponses))) (by decide) (by unfold Readable; decide) rfl
    emptyBuffer_fresh rfl (by decide +kernel)

/-- Two heart responses in one chunk: the second one stays in the buffer. -/
theorem two_frames_in_one_chunk :
    ((Prog.repeatWhile (sockStep Env.benign) 1 emptyBuffer).run (World.start (deliveries
        [(heartResponse 1).image ++ (heartResponse 1).image]))).1.1 = true ∧
      ((Prog.repeatWhile (sockStep Env.benign) 1 emptyBuffer).run (World.start (deliveries
        [(heartResponse 1).image ++ (heartResponse 1).image]))).2.handled = [heartResponse 1] := by
  decide +kernel

/-! ## Spurious disconnects -/

/-- Chunks from the front of a stream of frames that the event loop accepts when
they arrive alone. -/
structure LegitStream (e : Env) (ms : List Message) (chunks : List Bytes) : Prop where
  sized : ∀ m ∈ ms, 1 ≤ m.payload.length ∧ m.image.length ≤ 251
  succeed : ∀ m ∈ ms, ∀ w, 0 ≤ handlerRc e m w
  readable : Readable chunks
  stream : chunks.flatten <+: (images ms).flatten

/-- Whatever the cut, the bytes received up to the chunk `c` exceed by at most 251
the frames that were complete before the cut and one more for each chunk between
the cut and `c`. -/
def BacklogFits (ms : List Message) (chunks : List Bytes) : Prop :=
  ∀ before between c after, chunks = before ++ between ++ c :: after →
    (before ++ between ++ [c]).flatten.length ≤
      251 + ((images ms).take
        (completeIn (images ms) before.flatten.length + between.length)).flatten.length

theorem LegitStream.short {e : Env} {ms : List Message} {chunks : List Bytes}
    (h : LegitStream e ms chunks) : Short ms := fun m hm => by
  have := (h.sized m hm).2
  rw [length_image] at this
  omega

/-- A call that finds bytes for which there is room succeeds, when its requests
are granted and its handler succeeds. -/
theorem asyncSockRecv_succeeds {e : Env} {buf : Buffer} {w : World}
    (hcap : buf.cap = maxRecvBufferLength) (hgrant : e.GrantsAll) (hgot : (arrival w).2.1 ≠ [])
    (hfits : (buf.contents ++ (arrival w).2.1).length < 252)
    (hfirst : frameFormat.HasFrame (buf.contents ++ (arrival w).2.1) →
      2 ≤ ofBe16 (buf.contents ++ (arrival w).2.1) ∧
        0 ≤ handlerRc e (decode ((buf.contents ++ (arrival w).2.1).take
          (frameLen (buf.contents ++ (arrival w).2.1)))) w) :
    0 ≤ ((asyncSockRecv e buf).run w).1.1 := by
  have h := asyncSockRecv_result (e := e) (w := w) hcap
  generalize (asyncSockRecv e buf).run w = r at h
  have hlen : (buf.contents ++ (arrival w).2.1).length = buf.len + (arrival w).2.1.length := by
    rw [List.length_append, length_contents]
  cases h with
  | closed _ hnil => exact absurd hnil hgot
  | overflow _ _ hbig =>
    simp only [maxRecvBufferLength] at hbig
    omega
  | buffered buf1 log r _ _ _ hc hres =>
    have hlen1 : buf1.len = (buf.contents ++ (arrival w).2.1).length := by
      rw [← hc, length_contents]
    cases hres with
    | full hfull => omega
    | waiting => exact Int.le_refl 0
    | refused _ _ _ hg =>
      rw [hgrant _ _ _ (by decide)] at hg
      cases hg
    | malformed _ _ _ hfr _ hdec =>
      rw [hc] at hfr hdec
      have htwo := (hfirst hfr).1
      refine absurd ⟨htwo, .inr (hgrant _ _ _ ?_)⟩ hdec
      omega
    | handled f heap log r _ hfr _ _ _ hmsg hf =>
      have hrc : r.1 = handlerRc e f.message w := (HandleFrameResult.rc hf).trans rfl
      rw [hc] at hfr hmsg
      rw [hmsg] at hrc
      have hpos : 0 ≤ r.1 := by rw [hrc]; exact (hfirst hfr).2
      rw [if_neg (Int.not_lt.mpr hpos)]
      exact hpos

namespace ChunkingLemmas

section Legit

variable {e : Env} {ms : List Message} {chunks : List Bytes}

/-- The next event goes on exactly when the buffer has room for the chunk and for
four bytes more. -/
theorem Progress.step_ok_iff {handled : List Message} {k : Nat} {buf : Buffer} {w : World}
    (hgrant : e.GrantsAll) (hl : LegitStream e ms chunks) (hk : k < chunks.length)
    (h : Progress ms chunks handled k buf w) :
    ((sockStep e buf).run w).1.1 = true ↔
      (chunks.take (k + 1)).flatten.length ≤
        251 + ((images ms).take (handledAfter ms chunks k)).flatten.length := by
  obtain ⟨c, rest, hd⟩ : ∃ c rest, chunks.drop k = c :: rest := by
    cases hd : chunks.drop k with
    | nil => exact absurd (List.drop_eq_nil_iff.mp hd) (Nat.not_le.mpr hk)
    | cons c rest => exact ⟨c, rest, rfl⟩
  obtain ⟨htake, _, _⟩ := take_succ_of_drop hd
  have hc := hl.readable c (List.mem_of_mem_drop (hd ▸ List.mem_cons_self))
  have harr : (arrival w).2.1 = c := (arrival_chunk hc.2 (hd ▸ h.position.inbox)).1
  obtain ⟨hrecv, _, hfirst⟩ := h.next hl.short hl.stream htake
  have hroom : (chunks.take (k + 1)).flatten.length ≤
      251 + ((images ms).take (handledAfter ms chunks k)).flatten.length ↔
      (buf.contents ++ c).length < 252 := by
    rw [hrecv, List.length_append]
    omega
  rw [hroom]
  constructor
  · intro hok
    obtain ⟨c', _, htake', _, hfits, _⟩ := h.position.step hl.readable hok
    rw [htake] at htake'
    have hcc : [c] = [c'] := List.append_cancel_left htake'
    cases hcc
    exact hfits
  · intro hfits
    rw [run_sockStep]
    refine decide_eq_true (asyncSockRecv_succeeds h.position.cap hgrant ?_ ?_ ?_)
    · rw [harr]
      exact List.ne_nil_of_length_pos hc.1
    · rw [harr]
      exact hfits
    · rw [harr]
      intro hfr
      have htake' := hfirst hfr
      have hmem : (buf.contents ++ c).take (frameLen (buf.contents ++ c)) ∈ images ms := by
        refine List.mem_of_mem_take (i := handledAfter ms chunks k + 1) ?_
        rw [htake']
        exact List.mem_append_right _ List.mem_cons_self
      obtain ⟨m, hm, himg⟩ := List.mem_map.mp hmem
      rw [← himg, decode_image]
      refine ⟨?_, hl.succeed m hm w⟩
      -- the header of the first frame is the header of the contents
      have hshort := hl.short m hm
      have hbe : ofBe16 (buf.contents ++ c) = ofBe16 m.image := by
        rw [himg, ofBe16_take (by unfold frameLen; omega)]
      rw [hbe, ofBe16_image hshort]
      exact Nat.le_add_left _ _

/-- The run goes on through the first `n` chunks exactly when there is room for
each of them. -/
theorem run_ok_iff {buf : Buffer} {w : World} (hgrant : e.GrantsAll)
    (hl : LegitStream e ms chunks) (hbuf : buf.Fresh) (hinbox : w.inbox = deliveries chunks)
    {n : Nat} (hn : n ≤ chunks.length) :
    ((Prog.repeatWhile (sockStep e) n buf).run w).1.1 = true ↔
      ∀ j, j < n → (chunks.take (j + 1)).flatten.length ≤
        251 + ((images ms).take (handledAfter ms chunks j)).flatten.length := by
  induction n with
  | zero => exact iff_of_true rfl fun j hj => absurd hj (Nat.not_lt_zero j)
  | succ n ih =>
    have ih := ih (Nat.le_of_succ_le hn)
    rw [Prog.run_repeatWhile_add_one]
    by_cases hok : ((Prog.repeatWhile (sockStep e) n buf).run w).1.1 = true
    · have hprog := run_progress hl.short hl.stream hl.readable hbuf hinbox hok
      rw [if_pos hok, hprog.step_ok_iff hgrant hl hn]
      constructor
      · intro hlast j hj
        rcases Nat.lt_succ_iff_lt_or_eq.mp hj with hj | rfl
        · exact ih.mp hok j hj
        · exact hlast
      · exact fun hall => hall n (Nat.lt_succ_self n)
    · rw [if_neg hok]
      refine iff_of_false hok fun hall => hok (ih.mpr fun j hj => ?_)
      exact hall j (Nat.lt_succ_of_lt hj)

theorem length_flatten_take_mono {α : Type} (fs : List (List α)) {a b : Nat} (h : a ≤ b) :
    (fs.take a).flatten.length ≤ (fs.take b).flatten.length := by
  obtain ⟨t, ht⟩ : fs.take a <+: fs.take b := List.take_prefix_take_left h
  rw [← ht, List.flatten_append, List.length_append]
  exact Nat.le_add_right _ _

/-- Room for every chunk, in terms of the chunks alone. -/
theorem backlogFits_iff (hms : Short ms) :
    BacklogFits ms chunks ↔
      ∀ j, j < chunks.length → (chunks.take (j + 1)).flatten.length ≤
        251 + ((images ms).take (handledAfter ms chunks j)).flatten.length := by
  constructor
  · intro h j hj
    -- the cut at which the number of frames handled is attained
    obtain ⟨i, hi, hserved⟩ :=
      exists_served_eq (show completeAfter ms chunks 0 = 0 from completeAfter_zero hms)
        completeAfter_mono j
    cases hd : chunks.drop j with
    | nil => exact absurd (List.drop_eq_nil_iff.mp hd) (Nat.not_le.mpr hj)
    | cons c rest =>
      obtain ⟨htake, _, _⟩ := take_succ_of_drop hd
      have hsplit : chunks.take i ++ (chunks.take j).drop i = chunks.take j := by
        have := List.take_append_drop i (chunks.take j)
        rwa [List.take_take, Nat.min_eq_left hi] at this
      have hfit := h (chunks.take i) ((chunks.take j).drop i) c rest (by
        rw [hsplit, ← hd, List.take_append_drop])
      rw [hsplit, ← htake, List.length_drop, List.length_take, Nat.min_eq_left (Nat.le_of_lt hj)]
        at hfit
      rw [handledAfter, hserved]
      exact hfit
  · rintro h before between c after rfl
    have hj := h (before ++ between).length (by simp)
    have htake : (before ++ between ++ c :: after).take ((before ++ between).length + 1) =
        before ++ between ++ [c] := by
      rw [List.take_append, List.take_of_length_le (Nat.le_succ _), Nat.add_sub_cancel_left]
      rfl
    rw [htake] at hj
    refine Nat.le_trans hj (Nat.add_le_add_left (length_flatten_take_mono _ ?_) _)
    have hmono : ∀ j, completeAfter ms (before ++ between ++ c :: after) j ≤
        completeAfter ms (before ++ between ++ c :: after) (j + 1) := completeAfter_mono
    have hle := served_le hmono (i := before.length) (j := (before ++ between).length) (by simp)
    have hbefore : (before ++ between ++ c :: after).take before.length = before := by
      rw [List.append_assoc, List.take_left' rfl]
    rw [completeAfter, hbefore, List.length_append, Nat.add_sub_cancel_left,
      ← List.length_append] at hle
    exact hle

end Legit

end ChunkingLemmas

/-- The first `n` values of a sequence. -/
def firsts {α : Type} (s : Nat → α) (n : Nat) : List α := (List.range n).map s

/-- No call returns an error exactly when the backlog fits. The second part is
about unbounded sequences of frames and chunks: no call ever returns an error
exactly when the backlog fits in every finite part of them. -/
theorem no_spurious_disconnect (e : Env) (hgrant : e.GrantsAll) (buf : Buffer)
    (hbuf : buf.Fresh) :
    (∀ (ms : List Message) (chunks : List Bytes) (w : World), LegitStream e ms chunks →
      w.inbox = deliveries chunks →
      (((Prog.repeatWhile (sockStep e) chunks.length buf).run w).1.1 = true ↔
        BacklogFits ms chunks)) ∧
    (∀ (ms : Nat → Message) (chunks : Nat → Bytes),
      (∀ n, ∃ k, LegitStream e (firsts ms k) (firsts chunks n)) →
      ((∀ n w, w.inbox = deliveries (firsts chunks n) →
          ((Prog.repeatWhile (sockStep e) n buf).run w).1.1 = true) ↔
        ∀ n k, LegitStream e (firsts ms k) (firsts chunks n) →
          BacklogFits (firsts ms k) (firsts chunks n))) := by
  have hfinite : ∀ (ms : List Message) (chunks : List Bytes) (w : World),
      LegitStream e ms chunks → w.inbox = deliveries chunks →
      (((Prog.repeatWhile (sockStep e) chunks.length buf).run w).1.1 = true ↔
        BacklogFits ms chunks) := by
    intro ms chunks w hl hinbox
    rw [run_ok_iff hgrant hl hbuf hinbox (Nat.le_refl _), backlogFits_iff hl.short]
  refine ⟨hfinite, ?_⟩
  intro ms chunks hall
  have hlen : ∀ n, (firsts chunks n).length = n := fun n => by simp [firsts]
  constructor
  · intro hok n k hl
    rw [← hfinite _ _ (World.start (deliveries (firsts chunks n))) hl rfl, hlen]
    exact hok n _ rfl
  · intro hfits n w hinbox
    obtain ⟨k, hl⟩ := hall n
    have := (hfinite _ _ w hl hinbox).mpr (hfits n k hl)
    rwa [hlen] at this

theorem no_spurious_disconnect_one_each :
    ((Prog.repeatWhile (sockStep Env.benign) (images twoResponses).length emptyBuffer).run
        (World.start (deliveries (images twoResponses)))).1.1 = true ↔
      BacklogFits twoResponses (images twoResponses) := by
  have hl : LegitStream Env.benign twoResponses (images twoResponses) := by
    refine ⟨by decide, ?_, by unfold Readable; decide, List.prefix_refl _⟩
    intro m hm w
    have hmethod : m.method = mleHeartResponse := by
      rcases List.mem_cons.mp hm with rfl | hm
      · rfl
      · rw [List.mem_singleton.mp hm]
        rfl
    have hrc : handlerRc Env.benign m w = 0 := if_pos (.inl hmethod)
    exact Int.le_of_eq hrc.symm
  exact (no_spurious_disconnect Env.benign (fun _ _ _ h => decide_eq_true h) emptyBuffer
    emptyBuffer_fresh).1 twoResponses (images twoResponses)
      (World.start (deliveries (images twoResponses))) hl rfl

/-- Twelve frames of 32 bytes in three chunks: the third call returns an error. -/
theorem back_to_back_disconnect :
    ((Prog.repeatWhile (sockStep Env.benign) 3 emptyBuffer).run (World.start (deliveries
      (List.replicate 3 (List.replicate 4 (heartResponse 28).image).flatten)))).1.1 = false := by
  decide +kernel

end EspushW60x
