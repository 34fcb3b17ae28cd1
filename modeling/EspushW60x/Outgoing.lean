import EspushW60x.Stream

/-!
# The outgoing stream

The heart timer writes 5-byte frames to the pipe; the select thread forwards the
pipe to the socket, up to 128 bytes at a time, and also sends answers and probe
replies. The connection is a step relation: the timer can run between any two
steps of the select thread.

128 is not a multiple of 5. Once more than 25 heart frames are queued, the pipe is
read in the middle of one, and the next reply goes out inside it.

Results:
* `selectHandle_acts`: the steps of the select thread make up `select_handle`;
* `asyncSockRecv_wire`: a readable socket sends nothing or one whole frame;
* `LoopInv.step`: what was sent ends in less than one heart frame, and the pipe
  goes on where it ends;
* `outgoing_framing`: every reply goes out after complete frames exactly when the
  pipe holds whole heart frames whenever a reply is sent.
-/

namespace EspushW60x

open Lib EventLoopLemmas StreamLemmas
open LengthFormat (exists_cut)

/-! ## The connection -/

/-- Where the select thread is in `select_handle`. -/
inductive Phase
  | select
  | sock (pipeReady : Bool)
  | pipe
  | closed
deriving DecidableEq, Repr

structure LoopState where
  phase : Phase
  buf : Buffer
  world : World

inductive LoopAct
  | heart
  | select (sockReady pipeReady : Bool)
  | sock
  | pipe
deriving DecidableEq, Repr

/-- One step, when it is enabled. The pipe is readable when it is not empty. -/
def loopStep (e : Env) (s : LoopState) : LoopAct → Option LoopState
  | .heart => some { s with world := (heartTimeout.run s.world).2 }
  | .select sockReady pipeReady =>
    if s.phase = .select ∧ (pipeReady = true → s.world.pipe ≠ []) then
      some { s with
        phase := if sockReady then .sock pipeReady else if pipeReady then .pipe else .select }
    else none
  | .sock =>
    match s.phase with
    | .sock pipeReady =>
      let r := (asyncSockRecv e s.buf : Prog World _).run s.world
      let next := if r.1.1 < 0 then .closed else if pipeReady then .pipe else .select
      some ⟨next, r.1.2, r.2⟩
    | _ => none
  | .pipe =>
    if s.phase = .pipe then
      some ⟨.select, s.buf, ((asyncPipeRead e).run s.world).2⟩
    else none

/-- The steps that a sequence of actions makes, up to the first one that is not
enabled. -/
def loopSteps (e : Env) : LoopState → List LoopAct → List (LoopState × LoopState)
  | _, [] => []
  | s, a :: rest =>
    match loopStep e s a with
    | some s' => (s, s') :: loopSteps e s' rest
    | none => []

/-- A step that sends an answer or a probe reply. -/
def Replies (step : LoopState × LoopState) : Prop :=
  (step.1.phase = .sock true ∨ step.1.phase = .sock false) ∧
    step.2.world.wire ≠ step.1.world.wire

instance (step : LoopState × LoopState) : Decidable (Replies step) :=
  inferInstanceAs (Decidable ((_ ∨ _) ∧ _))

/-- The actions of one call of `select_handle`. -/
def selectActs (sock pipe : Bool) : List LoopAct :=
  .select sock pipe :: ((if sock then [.sock] else []) ++ if pipe then [.pipe] else [])

/-- A call of `select_handle` that returns no error is the run of its actions. -/
theorem selectHandle_acts (e : Env) (buf : Buffer) (w : World) (sock pipe : Bool)
    (hpipe : pipe = true → w.pipe ≠ [])
    (hok : 0 ≤ ((selectHandle e buf (.ready sock pipe)).run w).1.1) :
    (selectActs sock pipe).foldlM (loopStep e) ⟨.select, buf, w⟩ =
      some ⟨.select, ((selectHandle e buf (.ready sock pipe)).run w).1.2,
        ((selectHandle e buf (.ready sock pipe)).run w).2⟩ := by
  rw [run_selectHandle_ready] at hok ⊢
  cases sock with
  | false =>
    cases pipe with
    | false => rfl
    | true => simp [selectActs, loopStep, hpipe rfl]
  | true =>
    by_cases hneg : ((asyncSockRecv e buf).run w).1.1 < 0
    · simp only [if_true, if_pos hneg] at hok
      exact absurd hok (show ¬ (0 : Int) ≤ -1 by decide)
    · cases pipe with
      | false => simp [selectActs, loopStep, hneg]
      | true => simp [selectActs, loopStep, hneg, hpipe rfl]

/-! ## What is sent -/

namespace OutgoingLemmas

section Wire

variable {e : Env} (hsend : e.SendsAll)

include hsend in
theorem WriteLightprotoResult.wire {out : Lightproto} {w w' : World}
    (h : WriteLightprotoResult e out w w') :
    w'.wire = w.wire ∨ ∃ f, frameFormat.IsFrame f ∧ w'.wire = w.wire ++ f := by
  cases h with
  | refused => exact .inl rfl
  | unsent => exact .inl rfl
  | sent =>
    refine .inr ⟨(uartAnswer out).image, isFrame_image (by simp [uartAnswer]), ?_⟩
    have htake : (uartAnswer out).image.take 12 = (uartAnswer out).image :=
      List.take_of_length_le (Nat.le_of_eq (length_uartAnswer out))
    show w.wire ++ (uartAnswer out).image.take (e.sendRc w.sends 12).toNat = _
    rw [hsend]
    exact congrArg (w.wire ++ ·) htake

include hsend in
theorem HandleFrameResult.wire {f : Frame} {w : World} {r : Int × World}
    (h : HandleFrameResult e f w r) :
    r.2.wire = w.wire ∨ ∃ f, frameFormat.IsFrame f ∧ r.2.wire = w.wire ++ f := by
  cases h with
  | silent => exact .inl rfl
  | probe =>
    refine .inr ⟨probeBuf, by decide, ?_⟩
    show w.wire ++ probeBuf.take (e.sendRc w.sends probeBuf.length).toNat = _
    rw [hsend]
    rfl
  | uart w' _ hu =>
    cases hu with
    | ignored => exact .inl rfl
    | answered out w1 _ _ hp hw =>
      obtain ⟨pins, log, rfl⟩ := hp
      have hwire := WriteLightprotoResult.wire hsend hw
      exact hwire

end Wire

end OutgoingLemmas

open OutgoingLemmas

/-- A readable socket leaves the pipe alone, and sends nothing or one frame. -/
theorem asyncSockRecv_wire {e : Env} {buf : Buffer} {w : World} (hsend : e.SendsAll)
    (hcap : buf.cap = maxRecvBufferLength) :
    ((asyncSockRecv e buf).run w).2.pipe = w.pipe ∧
      (((asyncSockRecv e buf).run w).2.wire = w.wire ∨
        ∃ f, frameFormat.IsFrame f ∧ ((asyncSockRecv e buf).run w).2.wire = w.wire ++ f) := by
  have h := asyncSockRecv_result (e := e) (w := w) hcap
  generalize (asyncSockRecv e buf).run w = r at h
  cases h with
  | closed => exact ⟨rfl, .inl rfl⟩
  | overflow => exact ⟨rfl, .inl rfl⟩
  | buffered buf1 log r _ _ _ _ hres =>
    cases hres with
    | full => exact ⟨rfl, .inl rfl⟩
    | waiting => exact ⟨rfl, .inl rfl⟩
    | refused => exact ⟨rfl, .inl rfl⟩
    | malformed => exact ⟨rfl, .inl rfl⟩
    | handled f heap log r _ _ _ _ _ _ hf =>
      have hpipe := (HandleFrameResult.frame hf).2.1
      have hwire := HandleFrameResult.wire hsend hf
      split
      · exact ⟨hpipe, hwire⟩
      · exact ⟨hpipe, hwire⟩

/-- A readable pipe moves up to 128 bytes to the socket. -/
theorem asyncPipeRead_wire {e : Env} {w : World} (hsend : e.SendsAll) :
    ((asyncPipeRead e).run w).2.wire = w.wire ++ w.pipe.take 128 ∧
      ((asyncPipeRead e).run w).2.pipe = w.pipe.drop 128 := by
  simp only [asyncPipeRead, lift_world, Prog.run_bind, run_readPipe, Prog.run_ite, Prog.run_pure, run_send]
  by_cases hnil : w.pipe = []
  · simp [hnil]
  · have hpos : 0 < (w.pipe.take 128).length := by
      rw [List.length_take]
      have := List.length_pos_iff.mpr hnil
      omega
    rw [if_neg (by omega), if_neg (by omega)]
    refine ⟨?_, rfl⟩
    show w.wire ++ (w.pipe.take 128).take (e.sendRc w.sends (w.pipe.take 128).length).toNat = _
    rw [hsend, Int.toNat_natCast, List.take_length]

/-! ## The invariant -/

/-- `n` heart frames. -/
def hearts (n : Nat) : Bytes := (List.replicate n heartBuf).flatten

/-- What was sent is a sequence of frames and less than one heart frame more; the
pipe goes on where it ends. -/
def LoopInv (s : LoopState) : Prop :=
  s.buf.cap = maxRecvBufferLength ∧
    ∃ done part n, s.world.wire = done ++ part ∧ frameFormat.Complete done ∧
      part ++ s.world.pipe = hearts n ∧ part.length < 5

namespace OutgoingLemmas

theorem length_hearts (n : Nat) : (hearts n).length = 5 * n := by
  induction n with
  | zero => rfl
  | succ n ih =>
    rw [hearts, List.replicate_succ, List.flatten_cons, List.length_append]
    rw [hearts] at ih
    rw [ih]
    show 5 + 5 * n = 5 * (n + 1)
    omega

theorem complete_hearts (n : Nat) : frameFormat.Complete (hearts n) := by
  refine ⟨List.replicate n heartBuf, ?_, rfl⟩
  intro f hf
  rw [List.eq_of_mem_replicate hf]
  decide

/-- A proper part of a heart frame is not complete. -/
theorem not_complete_part {part rest : Bytes} {n : Nat} (h : part ++ rest = hearts n)
    (hlt : part.length < 5) (hne : part ≠ []) : ¬ frameFormat.Complete part := by
  cases n with
  | zero => exact absurd (List.append_eq_nil_iff.mp h).1 hne
  | succ n =>
    have hsucc : hearts (n + 1) = heartBuf ++ hearts n := by
      rw [hearts, List.replicate_succ, List.flatten_cons]
      rfl
    rw [hsucc] at h
    obtain ⟨v, hv⟩ : part <+: heartBuf :=
      List.prefix_of_prefix_length_le ⟨rest, h⟩ ⟨hearts n, rfl⟩ (Nat.le_of_lt hlt)
    have hvne : v ≠ [] := by
      rintro rfl
      rw [List.append_nil] at hv
      rw [hv] at hlt
      exact absurd hlt (by decide)
    exact LengthFormat.IsFrame.not_complete_of_append (hv ▸ by decide) hne hvne

/-- Nothing of a heart frame has been sent exactly when the pipe holds whole ones. -/
theorem part_eq_nil_iff {part pipe : Bytes} {n : Nat} (h : part ++ pipe = hearts n)
    (hlt : part.length < 5) : part = [] ↔ pipe.length % 5 = 0 := by
  have hlen := congrArg List.length h
  rw [List.length_append, length_hearts] at hlen
  rw [← List.length_eq_zero_iff]
  omega

end OutgoingLemmas

/-- In a state with the invariant, what was sent is complete exactly when the pipe
holds whole heart frames. -/
theorem LoopInv.complete_iff {s : LoopState} (h : LoopInv s) :
    frameFormat.Complete s.world.wire ↔ s.world.pipe.length % 5 = 0 := by
  obtain ⟨_, done, part, n, hwire, hdone, hpart, hlt⟩ := h
  rw [← part_eq_nil_iff hpart hlt, hwire]
  constructor
  · intro hc
    by_cases hne : part = []
    · exact hne
    · exact absurd (hc.right hdone) (not_complete_part hpart hlt hne)
  · rintro rfl
    rwa [List.append_nil]

/-- A step keeps the invariant, unless it sends a reply while the pipe holds a part
of a heart frame. -/
theorem LoopInv.step {e : Env} {s s' : LoopState} {a : LoopAct} (hsend : e.SendsAll)
    (h : LoopInv s) (hs : loopStep e s a = some s')
    (hok : Replies (s, s') → s.world.pipe.length % 5 = 0) : LoopInv s' := by
  obtain ⟨hcap, done, part, n, hwire, hdone, hpart, hlt⟩ := h
  cases a with
  | heart =>
    cases hs
    refine ⟨hcap, ?_⟩
    simp only [heartTimeout, Prog.run_modify]
    split
    · refine ⟨done, part, n + 1, hwire, hdone, ?_, hlt⟩
      have hsucc : hearts (n + 1) = hearts n ++ heartBuf := by
        simp [hearts, List.replicate_succ']
      rw [hsucc, ← hpart, List.append_assoc]
    · exact ⟨done, part, n, hwire, hdone, hpart, hlt⟩
  | select sockReady pipeReady =>
    simp only [loopStep] at hs
    split at hs
    · cases hs
      exact ⟨hcap, done, part, n, hwire, hdone, hpart, hlt⟩
    · cases hs
  | sock =>
    simp only [loopStep] at hs
    split at hs
    next pipeReady hphase =>
      cases hs
      obtain ⟨hpipe, hsent⟩ := asyncSockRecv_wire (w := s.world) hsend hcap
      refine ⟨(asyncSockRecv_sameBlock hcap).2.2.trans hcap, ?_⟩
      rw [hpipe]
      by_cases hsame : ((asyncSockRecv e s.buf).run s.world).2.wire = s.world.wire
      · exact ⟨done, part, n, hsame.trans hwire, hdone, hpart, hlt⟩
      · -- a reply goes out, so nothing of a heart frame has been sent
        rcases hsent with hsent | ⟨f, hf, hsent⟩
        · exact absurd hsent hsame
        · have hphase' : s.phase = .sock true ∨ s.phase = .sock false := by
            cases pipeReady
            · exact .inr hphase
            · exact .inl hphase
          have hnil := (part_eq_nil_iff hpart hlt).mpr (hok ⟨hphase', hsame⟩)
          subst hnil
          refine ⟨done ++ f, [], n, ?_, hdone.append hf.complete, hpart, hlt⟩
          rw [hsent, hwire, List.append_nil, List.append_nil]
    next => cases hs
  | pipe =>
    simp only [loopStep] at hs
    split at hs
    next hphase =>
      cases hs
      obtain ⟨hsent, hpipe⟩ := asyncPipeRead_wire (w := s.world) hsend
      have hcut : (List.replicate n heartBuf).flatten =
          (part ++ s.world.pipe.take 128) ++ s.world.pipe.drop 128 := by
        rw [List.append_assoc, List.take_append_drop]
        exact hpart.symm
      obtain ⟨k, part', _, hfront, hback, hless⟩ := exists_cut hcut
      have hlt' : part'.length < 5 := by
        rcases hless with rfl | ⟨f, hf, hless⟩
        · decide
        · rw [List.eq_of_mem_replicate hf] at hless
          exact hless
      rw [List.take_replicate] at hfront
      rw [List.drop_replicate] at hback
      refine ⟨hcap, done ++ hearts (min k n), part', n - k, ?_, hdone.append (complete_hearts _),
        ?_, hlt'⟩
      · rw [hsent, hwire, List.append_assoc, hfront, List.append_assoc]
        rfl
      · rw [hpipe]
        exact hback
    next => cases hs

/-! ## Runs -/

/-- From a connection that has sent complete frames and whose pipe is empty: in
every sequence of steps, every reply goes out after complete frames exactly when
the pipe holds whole heart frames whenever a reply is sent. -/
theorem outgoing_framing (e : Env) (hsend : e.SendsAll) (s : LoopState) (acts : List LoopAct)
    (hcap : s.buf.cap = maxRecvBufferLength) (hwire : frameFormat.Complete s.world.wire)
    (hpipe : s.world.pipe = []) :
    (∀ step ∈ loopSteps e s acts, Replies step → frameFormat.Complete step.1.world.wire) ↔
      ∀ step ∈ loopSteps e s acts, Replies step → step.1.world.pipe.length % 5 = 0 := by
  have hinv : LoopInv s := by
    refine ⟨hcap, s.world.wire, [], 0, (List.append_nil _).symm, hwire, ?_, by decide⟩
    rw [hpipe]
    rfl
  clear hcap hwire hpipe
  induction acts generalizing s with
  | nil =>
    exact iff_of_true (List.forall_mem_nil _) (List.forall_mem_nil _)
  | cons a acts ih =>
    rw [loopSteps]
    cases hs : loopStep e s a with
    | none =>
      exact iff_of_true (List.forall_mem_nil _) (List.forall_mem_nil _)
    | some s' =>
      simp only [List.forall_mem_cons]
      rw [hinv.complete_iff]
      -- the later steps are compared only when this one keeps the invariant
      exact and_congr_right fun hok => ih s' (hinv.step hsend hs hok)

/-- A connection that a probe arrives on. -/
def probed : LoopState :=
  ⟨.select, emptyBuffer, World.start (deliveries [[0, 3, 0x85, 7, 1]])⟩

theorem outgoing_framing_one_heart :
    (∀ step ∈ loopSteps Env.benign probed [.heart, .select true true, .sock, .pipe],
        Replies step → frameFormat.Complete step.1.world.wire) ↔
      ∀ step ∈ loopSteps Env.benign probed [.heart, .select true true, .sock, .pipe],
        Replies step → step.1.world.pipe.length % 5 = 0 :=
  outgoing_framing Env.benign (fun _ _ => rfl) probed _ emptyBuffer_fresh.1 .nil rfl

/-- 26 heart frames are queued before the pipe is read: the probe reply goes out
after three bytes of the last one. -/
theorem reply_inside_heart_frame :
    ¬ ∀ step ∈ loopSteps Env.benign probed (List.replicate 26 .heart ++
        [.select false true, .pipe, .select true false, .sock]),
      Replies step → frameFormat.Complete step.1.world.wire := by
  intro h
  have hreply : ∃ step ∈ loopSteps Env.benign probed (List.replicate 26 .heart ++
      [.select false true, .pipe, .select true false, .sock]),
      Replies step ∧ step.1.world.wire = hearts 25 ++ [0, 3, 0] := by
    decide +kernel
  obtain ⟨step, hmem, hrep, hwire⟩ := hreply
  have hc := h step hmem hrep
  rw [hwire] at hc
  have hpart : ([0, 3, 0] : Bytes) ++ [0, 0xFF] = hearts 1 := by decide
  exact not_complete_part hpart (by decide) (by decide) (hc.right (complete_hearts 25))

end EspushW60x
