import EspushW60x.FrameIO

/-!
# Memory safety of the frame parser

Every copy, read, store and `recv` of `deserialize_frame` and `recv_frame` is in
the access log. A call is safe when all of them lie inside the bytes supplied,
the scratch block and the body block, when nothing is stored through `data` for
a frame without a body, and when a header below 2 is rejected.

The terminator `out->data[left - 2] = 0` goes one byte past a body of `left - 2`
bytes, and through `data` when there is no body. So a call is safe only if it
ends before the body is stored.

Results:
* `parser_memory_safety`: the exact inputs on which the two functions are safe;
* `recvFrame_overruns`: an ordinary, an empty and an under-length message that
  are not among them.
-/

namespace EspushW60x

open Lib

/-! ## What a call owes its caller -/

/-- The accesses and the return code of a call, for a header that says `left`. -/
def SafeRun (left : Nat) (rc : Int) (log : List Access) : Prop :=
  (∀ a ∈ log, a.InBounds) ∧
    (left = 2 → ∀ a ∈ log, a.region = .body → a.length = 0) ∧
    (left < 2 → rc = -1)

instance (left : Nat) (rc : Int) (log : List Access) : Decidable (SafeRun left rc log) :=
  inferInstanceAs (Decidable (_ ∧ _ ∧ _))

def DeserializeSafe (e : Env) (site : Site) (inData : Bytes) (inLength : Nat) (out : Frame)
    (m : Mem) : Prop :=
  let r := (deserializeFrame e site inData inLength out).run { m with log := [] }
  SafeRun (ofBe16 inData) r.1.1 r.2.log

def RecvFrameSafe (e : Env) (site : Site) (f : Frame) (w : World) : Prop :=
  let r := (recvFrame e site f).run { w with mem := { w.mem with log := [] } }
  SafeRun (recvLeft w) r.1.1 r.2.mem.log

instance (e : Env) (site : Site) (f : Frame) (w : World) : Decidable (RecvFrameSafe e site f w) :=
  inferInstanceAs (Decidable (SafeRun _ _ _))

/-- `deserialize_frame` ends in a size check, or the body is refused after the
method and the txid were read from the bytes supplied. -/
def StopsBeforeBody (e : Env) (site : Site) (next left inLength : Nat) : Prop :=
  inLength < left + 3 ∨ maxFrameLeft < left ∨
    (left ≠ 2 ∧ e.grant next (.body site) ((left : Int) - 2) = false ∧ 4 ≤ inLength)

instance (e : Env) (site : Site) (next left inLength : Nat) :
    Decidable (StopsBeforeBody e site next left inLength) :=
  inferInstanceAs (Decidable (_ ∨ _ ∨ _ ∧ _ ∧ _))

/-- `recv_frame` ends before its second `recv`, or the length it asks for there is
not negative and it ends before the body is stored. -/
def RecvStopsBeforeBody (e : Env) (site : Site) (w : World) : Prop :=
  (recvHead w).1 ≠ 4 ∨ e.grant w.mem.heap.next .scratch (recvLeft w + 2 + 1 : Nat) = false ∨
    (2 ≤ recvLeft w ∧ ((recvBody w).1 ≠ (recvLeft w : Int) - 2 ∨
      StopsBeforeBody e site (w.mem.heap.next + 1) (recvLeft w) (recvLeft w + 3)))

/-! ## `deserialize_frame` -/

namespace ParserSafetyLemmas

theorem safeRun_append {left : Nat} {rc : Int} {new old : List Access}
    (hold : ∀ a ∈ old, a.InBounds ∧ a.region ≠ .body) :
    SafeRun left rc (new ++ old) ↔ SafeRun left rc new := by
  constructor
  · rintro ⟨hin, hbody, hrc⟩
    exact ⟨fun a ha => hin a (List.mem_append_left _ ha),
      fun h2 a ha => hbody h2 a (List.mem_append_left _ ha), hrc⟩
  · rintro ⟨hin, hbody, hrc⟩
    refine ⟨?_, ?_, hrc⟩
    · intro a ha
      rcases List.mem_append.mp ha with ha | ha
      · exact hin a ha
      · exact (hold a ha).1
    · intro h2 a ha hreg
      rcases List.mem_append.mp ha with ha | ha
      · exact hbody h2 a ha hreg
      · exact absurd hreg (hold a ha).2

theorem headerReads_inBounds {n : Nat} (h : 4 ≤ n) :
    ∀ a ∈ headerReads n, a.InBounds ∧ a.region ≠ .body := by
  intro a ha
  simp only [headerReads, List.mem_cons, List.not_mem_nil, or_false] at ha
  rcases ha with rfl | rfl | rfl
  all_goals exact ⟨Access.inBounds_of_le (by decide) (by decide) (by omega), by simp⟩

/-- The terminator behind a body of `left - 2` bytes is out of bounds. -/
theorem not_safeRun_body {left n : Nat} {rc : Int} {out : Frame} {b : Block} (hleft : 2 < left)
    (hb : b.bytes.length = left - 2) {log : List Access} :
    ¬ SafeRun left rc (bodyStores n left { out with data := .dyn b } ++ log) := by
  intro h
  have hterm : (⟨.body, some b.bytes.length, (left : Int) - 2, 1⟩ : Access).InBounds :=
    h.1 _ (List.mem_append_left _ List.mem_cons_self)
  rcases hterm.2 with h0 | ⟨_, h1⟩
  · cases h0
  · simp only [Option.getD_some, hb] at h1
    omega

/-- The terminator of an empty body is stored through `data`. -/
theorem not_safeRun_empty {n : Nat} {rc : Int} {out : Frame} {log : List Access} :
    ¬ SafeRun 2 rc (bodyStores n 2 out ++ log) := by
  intro h
  have hterm := h.2.1 rfl _ (List.mem_append_left _ List.mem_cons_self) rfl
  cases hterm

/-- One call adds its own accesses to the log; they do not depend on what was
logged before, and they are safe exactly when the call stops before the body. -/
theorem deserializeFrame_safe (e : Env) (site : Site) (inData : Bytes) (inLength : Nat)
    (out : Frame) (heap : Ledger Kind) (h2 : 2 < inLength) (hin : inLength ≤ inData.length) :
    ∃ (rc : Int) (new : List Access),
      (∀ log, ((deserializeFrame e site inData inLength out).run ⟨heap, log⟩).1.1 = rc ∧
        ((deserializeFrame e site inData inLength out).run ⟨heap, log⟩).2.log = new ++ log) ∧
      (SafeRun (ofBe16 inData) rc new ↔
        StopsBeforeBody e site heap.next (ofBe16 inData) inLength) := by
  by_cases hrej : inLength < ofBe16 inData + 3 ∨ maxFrameLeft < ofBe16 inData
  · refine ⟨-1, [⟨.input, some inLength, 0, 2⟩], ?_, ?_⟩
    · intro log
      rw [run_deserializeFrame_reject hrej]
      exact ⟨rfl, rfl⟩
    · refine iff_of_true ⟨?_, ?_, fun _ => rfl⟩ (hrej.imp_right .inl)
      · intro a ha
        obtain rfl := List.mem_singleton.mp ha
        exact Access.inBounds_of_le (by decide) (by decide) (by omega)
      · intro _ a ha hreg
        obtain rfl := List.mem_singleton.mp ha
        cases hreg
  · obtain ⟨hlen, hmax⟩ : ofBe16 inData + 3 ≤ inLength ∧ ofBe16 inData ≤ maxFrameLeft := by omega
    by_cases htwo : ofBe16 inData = 2
    · refine ⟨0, bodyStores inLength 2 out ++ headerReads inLength, ?_, ?_⟩
      · intro log
        rw [run_deserializeFrame_empty hlen htwo]
        exact ⟨rfl, rfl⟩
      · rw [htwo]
        refine iff_of_false not_safeRun_empty ?_
        rintro (h | h | ⟨h, _⟩)
        · omega
        · exact absurd h (by decide)
        · exact h rfl
    · cases hg : e.grant heap.next (.body site) ((ofBe16 inData : Int) - 2) with
      | false =>
        refine ⟨-1, headerReads inLength, ?_, ?_⟩
        · intro log
          rw [run_deserializeFrame_refused hlen hmax htwo hg]
          exact ⟨rfl, rfl⟩
        · constructor
          · intro hs
            -- the read of the txid is the one that needs a fourth byte
            have htxid : (⟨.input, some inLength, 3, 1⟩ : Access).InBounds :=
              hs.1 _ List.mem_cons_self
            have h4 : 4 ≤ inLength := by
              rcases htxid.2 with h0 | ⟨_, h1⟩
              · cases h0
              · simp only [Option.getD_some] at h1
                omega
            exact .inr (.inr ⟨htwo, hg, h4⟩)
          · rintro (h | h | ⟨_, _, h4⟩)
            · omega
            · omega
            · exact ⟨fun a ha => (headerReads_inBounds h4 a ha).1, fun h => absurd h htwo,
                fun _ => rfl⟩
      | true =>
        have hleft : 2 < ofBe16 inData := by
          have hsize := Env.nonneg_of_grant hg
          omega
        refine ⟨0, bodyStores inLength (ofBe16 inData) { out with
          data := .dyn ⟨heap.next, (inData.drop 4).take (ofBe16 inData - 2)⟩ } ++
            headerReads inLength, ?_, ?_⟩
        · intro log
          rw [run_deserializeFrame_body hlen (by omega) hmax hleft hg]
          exact ⟨rfl, rfl⟩
        · refine iff_of_false (not_safeRun_body hleft ?_) ?_
          · simp only [List.length_take, List.length_drop]
            omega
          · rintro (h | h | ⟨_, h, _⟩)
            · omega
            · omega
            · rw [hg] at h
              cases h

/-! ## `recv_frame` -/

theorem headAccess_inBounds :
    ∀ a ∈ [(⟨.head, some 4, 0, 4⟩ : Access)], a.InBounds ∧ a.region ≠ .body := by
  decide

theorem recvLog_inBounds {w : World} (h : 2 ≤ recvLeft w) :
    ∀ a ∈ recvLog w, a.InBounds ∧ a.region ≠ .body := by
  intro a ha
  simp only [recvLog, List.mem_cons, List.not_mem_nil, or_false] at ha
  rcases ha with rfl | rfl | rfl
  · exact ⟨Access.inBounds_of_le (by decide) (by omega) (by omega), by simp⟩
  · exact ⟨Access.inBounds_of_le (by decide) (by decide) (by omega), by simp⟩
  · exact headAccess_inBounds _ List.mem_cons_self

/-- A header below 2 makes the length of the second `recv` negative. -/
theorem not_safeRun_recvLog {w : World} {rc : Int} {new : List Access} (h : recvLeft w < 2) :
    ¬ SafeRun (recvLeft w) rc (new ++ recvLog w) := by
  intro hs
  have hrecv : (⟨.scratch, some (recvLeft w + 2 + 1), 4, (recvLeft w : Int) - 2⟩ : Access).InBounds :=
    hs.1 _ (List.mem_append_right _ List.mem_cons_self)
  have := hrecv.1
  simp only at this
  omega

section RecvFrame

variable {e : Env} {site : Site} {f : Frame} {w : World}

/-- The scratch block is decoded. -/
theorem safeRun_recvFrame_delivered (hlog : w.mem.log = []) (h : RecvDelivered e w) :
    SafeRun (recvLeft w) ((recvFrame e site f).run w).1.1 ((recvFrame e site f).run w).2.mem.log ↔
      2 ≤ recvLeft w ∧
        StopsBeforeBody e site (w.mem.heap.next + 1) (recvLeft w) (recvLeft w + 3) := by
  have hleft : ofBe16 (recvBuf e w).bytes = recvLeft w := ofBe16_recvBuf h.1
  obtain ⟨rc, new, hnew, hiff⟩ :=
    deserializeFrame_safe e site (recvBuf e w).bytes (recvLeft w + 2 + 1) f
      (w.mem.heap.acquire .scratch) (by omega) (by have := length_recvBuf e w; omega)
  rw [hleft, Ledger.next_acquire] at hiff
  obtain ⟨hrc, hlog'⟩ := hnew (recvLog w ++ w.mem.log)
  generalize hr : (deserializeFrame e site (recvBuf e w).bytes (recvLeft w + 2 + 1) f).run
    ⟨w.mem.heap.acquire .scratch, recvLog w ++ w.mem.log⟩ = r at hrc hlog'
  rw [hlog, List.append_nil] at hlog'
  have hok : ((recvFrame e site f).run w).1.1 = if rc < 0 then -1 else rc := by
    rw [run_recvFrame_delivered h hr, hrc]
    split
    · rfl
    · exact hrc
  have hnew' : ((recvFrame e site f).run w).2.mem.log = new ++ recvLog w := by
    rw [run_recvFrame_delivered h hr]
    split
    · exact hlog'
    · exact hlog'
  rw [hok, hnew']
  rcases Nat.lt_or_ge (recvLeft w) 2 with hlt | hge
  · exact iff_of_false (not_safeRun_recvLog hlt) fun h => absurd h.1 (Nat.not_le.mpr hlt)
  · have hsafe : SafeRun (recvLeft w) (if rc < 0 then -1 else rc) new ↔
        SafeRun (recvLeft w) rc new := by
      simp only [SafeRun, Nat.not_lt.mpr hge, false_implies]
    rw [safeRun_append (recvLog_inBounds hge), hsafe, hiff]
    exact (and_iff_right hge).symm

/-- The scratch block is freed without being decoded. -/
theorem safeRun_recvFrame_short (hlog : w.mem.log = []) (h : (recvHead w).1 = 4)
    (hg : e.grant w.mem.heap.next .scratch (recvLeft w + 2 + 1 : Nat) = true)
    (hbody : (recvBody w).1 ≠ (recvLeft w : Int) - 2) :
    SafeRun (recvLeft w) ((recvFrame e site f).run w).1.1 ((recvFrame e site f).run w).2.mem.log ↔
      2 ≤ recvLeft w := by
  rw [run_recvFrame_short h hg hbody]
  have hlog' : recvLog w ++ w.mem.log = [] ++ recvLog w := by rw [hlog, List.append_nil]; rfl
  simp only [hlog']
  rcases Nat.lt_or_ge (recvLeft w) 2 with hlt | hge
  · exact iff_of_false (not_safeRun_recvLog hlt) (Nat.not_le.mpr hlt)
  · rw [safeRun_append (recvLog_inBounds hge)]
    refine iff_of_true ⟨?_, ?_, fun _ => rfl⟩ hge
    · exact fun a ha => absurd ha List.not_mem_nil
    · exact fun _ a ha => absurd ha List.not_mem_nil

theorem safeRun_recvFrame_iff (hlog : w.mem.log = []) :
    SafeRun (recvLeft w) ((recvFrame e site f).run w).1.1 ((recvFrame e site f).run w).2.mem.log ↔
      RecvStopsBeforeBody e site w := by
  by_cases hhead : (recvHead w).1 = 4
  · cases hg : e.grant w.mem.heap.next .scratch (recvLeft w + 2 + 1 : Nat) with
    | false =>
      rw [run_recvFrame_refused hhead hg, hlog]
      refine iff_of_true ⟨?_, ?_, fun _ => rfl⟩ (.inr (.inl hg))
      · exact fun a ha => (headAccess_inBounds a ha).1
      · exact fun _ a ha hreg => absurd hreg (headAccess_inBounds a ha).2
    | true =>
      have hstop : RecvStopsBeforeBody e site w ↔
          2 ≤ recvLeft w ∧ ((recvBody w).1 ≠ (recvLeft w : Int) - 2 ∨
            StopsBeforeBody e site (w.mem.heap.next + 1) (recvLeft w) (recvLeft w + 3)) := by
        rw [RecvStopsBeforeBody, hg]
        constructor
        · rintro (h | h | h)
          · exact absurd hhead h
          · cases h
          · exact h
        · exact fun h => .inr (.inr h)
      rw [hstop]
      by_cases hbody : (recvBody w).1 = (recvLeft w : Int) - 2
      · rw [safeRun_recvFrame_delivered hlog ⟨hhead, hg, hbody⟩]
        exact and_congr_right fun _ => (or_iff_right (not_not_intro hbody)).symm
      · rw [safeRun_recvFrame_short hlog hhead hg hbody]
        exact (and_iff_left (.inl hbody)).symm
  · rw [run_recvFrame_head hhead, hlog]
    refine iff_of_true ⟨?_, ?_, fun _ => rfl⟩ (.inl hhead)
    · exact fun a ha => (headAccess_inBounds a ha).1
    · exact fun _ a ha hreg => absurd hreg (headAccess_inBounds a ha).2

end RecvFrame

end ParserSafetyLemmas

open ParserSafetyLemmas

theorem deserializeFrame_safe_iff {e : Env} {site : Site} {inData : Bytes} {inLength : Nat}
    {out : Frame} {m : Mem} (h2 : 2 < inLength) (hin : inLength ≤ inData.length) :
    DeserializeSafe e site inData inLength out m ↔
      StopsBeforeBody e site m.heap.next (ofBe16 inData) inLength := by
  obtain ⟨rc, new, hrun, hiff⟩ :=
    deserializeFrame_safe e site inData inLength out m.heap h2 hin
  obtain ⟨hrc, hlog⟩ := hrun []
  rw [DeserializeSafe, hrc, hlog, List.append_nil, hiff]

theorem recvFrame_safe_iff {e : Env} {site : Site} {f : Frame} {w : World} :
    RecvFrameSafe e site f w ↔ RecvStopsBeforeBody e site w :=
  safeRun_recvFrame_iff (w := { w with mem := { w.mem with log := [] } }) rfl

/-- The two functions are safe exactly when they stop before the body is stored. -/
theorem parser_memory_safety (e : Env) (site : Site) (f : Frame) :
    (∀ (inData : Bytes) (inLength : Nat) (m : Mem), 2 < inLength → inLength ≤ inData.length →
      (DeserializeSafe e site inData inLength f m ↔
        StopsBeforeBody e site m.heap.next (ofBe16 inData) inLength)) ∧
    (∀ w : World, RecvFrameSafe e site f w ↔ RecvStopsBeforeBody e site w) :=
  ⟨fun _ _ _ h2 hin => deserializeFrame_safe_iff h2 hin, fun _ => recvFrame_safe_iff⟩

/-- A one-byte probe frame is stored with a terminator past its body. -/
theorem parser_memory_safety_probe :
    ¬ DeserializeSafe Env.benign .message [0, 3, 0x85, 7, 1, 0] 6 .fresh Mem.empty := by
  have h := (parser_memory_safety Env.benign .message .fresh).1 [0, 3, 0x85, 7, 1, 0] 6 Mem.empty
    (by decide) (by decide)
  rw [h]
  decide

/-- Three messages on which `recv_frame` is not safe: a body of one byte (the
terminator goes one byte past it), no body (the terminator goes through NULL),
and a header below 2 (the second `recv` has a negative length). -/
theorem recvFrame_overruns :
    ¬ RecvFrameSafe Env.benign .message .fresh (World.start [.segment [0, 3, 0x85, 7, 1]]) ∧
      ¬ RecvFrameSafe Env.benign .message .fresh (World.start [.segment [0, 2, 0x80, 7]]) ∧
      ¬ RecvFrameSafe Env.benign .message .fresh (World.start [.segment [0, 1, 0x80, 7]]) := by
  decide

end EspushW60x
