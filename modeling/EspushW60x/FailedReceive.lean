import EspushW60x.SegmentedReceive
import EspushW60x.Login

/-!
# What a failed receive leaves behind

`cloud_authorization` does not look at the return code of `recv_frame`. It takes a
non-zero `length` as the sign that a body was received. `deserialize_frame` stores
the length before it asks for the body, so one failure leaves a length without one.

Results:
* `deserialize_leaves_empty`, `recv_leaves_empty`: the failures that leave an empty
  frame;
* `run_cloudAuthorization_sendLogin`: `cloud_authorization` is the login frame's way
  out and the response's way in;
* `failed_receive_leaves_empty_frame`: on which runs an error code goes with an empty
  frame, and on which `cloud_authorization` trusts only a body that was received.
-/

namespace EspushW60x

open Lib LoginLemmas EventLoopLemmas SegmentedReceiveLemmas

/-! ## What is promised -/

/-- The frame that `malloc_empty_frame` makes. -/
def emptyFrame (addr : Nat) (method : UInt8) : Frame := ⟨addr, method, 0, .static, .null, 0⟩

/-- A call that fails leaves an empty frame. -/
def LeavesEmpty (r : Int × Frame) : Prop := r.1 = -1 → r.2.length = 0 ∧ r.2.data = .null

/-- `recv_frame` returned 0 with a body. -/
def BodyReceived (r : Int × Frame) : Prop :=
  r.1 = 0 ∧ 0 < r.2.length ∧ r.2.length ≤ r.2.data.bytes.length

/-- The statements of `cloud_authorization` up to `recv_frame`: the frame for the
response, once the login frame was sent. -/
def sendLogin (e : Env) (mac : Fin 6 → UInt8) (conn : EspushConnection) :
    Prog World (Option Frame × EspushConnection) := do
  match ← (newLoginFrame e (getImei mac) : Prog Mem _) with
  | none => return (none, conn)
  | some f =>
    let r ← cloudWriteFrame e conn f
    (freeFrame f : Prog Mem _)
    if r.1 < 0 then
      return (none, r.2)
    let rsp ← (mallocEmptyFrame e .session 0 : Prog Mem _)
    return (rsp, r.2)

/-- What `recv_frame` returns to `cloud_authorization`, if it gets that far. -/
def loginResponse (e : Env) (mac : Fin 6 → UInt8) (conn : EspushConnection) (w : World) :
    Option ((Int × Frame) × World) :=
  let s := (sendLogin e mac conn).run w
  s.1.1.map fun rsp => (recvFrame e .session rsp).run s.2

/-- `cloud_authorization` reads a response only when its body was received, and the
device is let in only by such a body. -/
structure TrustsOnlyBodies (e : Env) (mac : Fin 6 → UInt8) (conn : EspushConnection)
    (w : World) : Prop where
  reads : ∀ got, loginResponse e mac conn w = some got →
    ((cloudAuthorization e mac conn).run w).2.mem.log ≠ got.2.mem.log → BodyReceived got.1
  accepts : ((cloudAuthorization e mac conn).run w).1.1 = 0 ↔
    ∃ got, loginResponse e mac conn w = some got ∧ BodyReceived got.1 ∧
      byteAt got.1.2.data.bytes 0 = authSuccess

/-! ## The failure that breaks it -/

/-- `deserialize_frame` passes its size checks and its body is refused. -/
def BodyRefused (e : Env) (site : Site) (next : Nat) (inData : Bytes) (inLength : Nat) : Prop :=
  ofBe16 inData + 3 ≤ inLength ∧ ofBe16 inData ≤ maxFrameLeft ∧ ofBe16 inData ≠ 2 ∧
    e.grant next (.body site) ((ofBe16 inData : Int) - 2) = false

/-- The message arrives whole and its body is refused. -/
def RecvBodyRefused (e : Env) (site : Site) (w : World) : Prop :=
  RecvDelivered e w ∧ recvLeft w ≤ maxFrameLeft ∧ recvLeft w ≠ 2 ∧
    e.grant (w.mem.heap.next + 1) (.body site) ((recvLeft w : Int) - 2) = false

/-- The login frame is sent, and the body of the response is refused. -/
def ResponseRefused (e : Env) (w : World) : Prop :=
  LoginSent e w ∧ RecvBodyRefused e .session (w.later 3)

theorem BodyReceived.data_ne_null {r : Int × Frame} (h : BodyReceived r) : r.2.data ≠ .null := by
  intro hnull
  have hpos := Nat.lt_of_lt_of_le h.2.1 h.2.2
  rw [hnull] at hpos
  cases hpos

namespace FailedReceiveLemmas

/-! ## `deserialize_frame` and `recv_frame` -/

section Receive

variable {e : Env} {site : Site} {addr : Nat} {method : UInt8}

/-- Once the body is granted, `deserialize_frame` returns 0. -/
theorem rc_deserializeFrame_granted {inData : Bytes} {inLength : Nat} (out : Frame) {m : Mem}
    (hlen : ofBe16 inData + 3 ≤ inLength) (hmax : ofBe16 inData ≤ maxFrameLeft)
    (htwo : ofBe16 inData ≠ 2)
    (hg : e.grant m.heap.next (.body site) ((ofBe16 inData : Int) - 2) = true) :
    ((deserializeFrame e site inData inLength out).run m).1.1 = 0 := by
  have hshort : ¬ inLength < 2 + ofBe16 inData + 1 := by omega
  have hzero : ¬ sizeT ((ofBe16 inData : Int) - 2) = 0 :=
    mt (length_withHeader_eq_zero out).mp htwo
  simp only [deserializeFrame, Prog.run_bind, run_touch, if_neg hshort, if_neg (Nat.not_lt.mpr hmax),
    hzero, if_false, run_espushMalloc, hg, if_true, run_storeBody]

theorem deserialize_leaves_empty (inData : Bytes) (inLength : Nat) (m : Mem) :
    LeavesEmpty ((deserializeFrame e site inData inLength (emptyFrame addr method)).run m).1 ↔
      ¬ BodyRefused e site m.heap.next inData inLength := by
  by_cases hrej : inLength < ofBe16 inData + 3 ∨ maxFrameLeft < ofBe16 inData
  · rw [run_deserializeFrame_reject hrej]
    refine iff_of_true (fun _ => ⟨rfl, rfl⟩) ?_
    rintro ⟨hlen, hmax, _⟩
    omega
  · obtain ⟨hlen, hmax⟩ : ofBe16 inData + 3 ≤ inLength ∧ ofBe16 inData ≤ maxFrameLeft := by omega
    by_cases htwo : ofBe16 inData = 2
    · rw [run_deserializeFrame_empty hlen htwo]
      exact iff_of_true (fun h => by cases h) fun h => h.2.2.1 htwo
    · cases hg : e.grant m.heap.next (.body site) ((ofBe16 inData : Int) - 2) with
      | false =>
        rw [run_deserializeFrame_refused hlen hmax htwo hg]
        refine iff_of_false (fun h => ?_) (not_not_intro ⟨hlen, hmax, htwo, hg⟩)
        exact htwo ((length_withHeader_eq_zero (emptyFrame addr method)).mp (h rfl).1)
      | true =>
        have hrc := rc_deserializeFrame_granted (emptyFrame addr method) hlen hmax htwo hg
        refine iff_of_true (fun h => ?_) ?_
        · rw [hrc] at h
          cases h
        · rintro ⟨_, _, _, hrefused⟩
          rw [hg] at hrefused
          cases hrefused

theorem recv_leaves_empty (w : World) :
    LeavesEmpty ((recvFrame e site (emptyFrame addr method)).run w).1 ↔
      ¬ RecvBodyRefused e site w := by
  have hres := recvFrame_result e site (emptyFrame addr method) w
  generalize (recvFrame e site (emptyFrame addr method)).run w = r at hres
  cases hres with
  | short _ _ _ hno => exact iff_of_true (fun _ => ⟨rfl, rfl⟩) fun h => hno ⟨h.1, h.2.1⟩
  | refused _ _ hdel hmax htwo hg =>
    refine iff_of_false (fun h => ?_) (not_not_intro ⟨hdel, hmax, htwo, hg⟩)
    have hzero := (h rfl).1
    simp only [length_header_pos hdel htwo] at hzero
  | empty _ _ htwo => exact iff_of_true (fun h => by cases h) fun h => h.2.2.1 htwo
  | body _ _ _ _ hg =>
    refine iff_of_true (fun h => by cases h) ?_
    rintro ⟨_, _, _, hrefused⟩
    rw [hg] at hrefused
    cases hrefused

end Receive

/-! ## `cloud_authorization` -/

section Login

variable {e : Env} {mac : Fin 6 → UInt8} {conn : EspushConnection} {w : World}

variable (e mac conn w) in
theorem run_cloudAuthorization_sendLogin :
    (cloudAuthorization e mac conn).run w =
      let s := (sendLogin e mac conn).run w
      match s.1.1 with
      | none => ((-1, s.1.2), s.2)
      | some rsp => ((((readResponse e rsp).run s.2).1, s.1.2), ((readResponse e rsp).run s.2).2) := by
  simp only [cloudAuthorization, sendLogin, Prog.run_bind, run_liftMem]
  generalize (newLoginFrame e (getImei mac)).run w.mem = a
  rcases a with ⟨_ | f, m⟩
  · rfl
  · simp only [Prog.run_bind, run_liftMem, Prog.run_ite]
    generalize (cloudWriteFrame e conn f).run { w with mem := m } = s
    by_cases hneg : s.1.1 < 0
    · simp only [if_pos hneg, Prog.run_pure]
    · simp only [if_neg hneg]
      generalize (mallocEmptyFrame e .session 0).run ((freeFrame f).run s.2.mem).2 = b
      rcases b with ⟨_ | rsp, m⟩ <;> rfl

theorem log_freeFrame (f : Frame) (m : Mem) : ((freeFrame f).run m).2.log = m.log := by
  cases hd : f.data with
  | null => rw [run_freeFrame_null hd]
  | static bytes =>
    simp only [freeFrame, hd]
    rfl
  | dyn block =>
    cases hflag : f.dataFlag with
    | static => rw [run_freeFrame_static hflag]
    | dyn => rw [run_freeFrame_dyn hflag hd]

/-- The response is read only when its length is not 0. -/
theorem log_readResponse {rsp : Frame} {r : (Int × Frame) × World}
    (hr : (recvFrame e .session rsp).run w = r) :
    ((readResponse e rsp).run w).2.mem.log =
      if r.1.2.length = 0 then r.2.mem.log
      else ⟨.body, r.1.2.data.size, 0, 1⟩ :: r.2.mem.log := by
  simp only [readResponse, Prog.run_bind, hr, Prog.run_ite, run_liftMem, run_touch, Prog.run_pure]
  by_cases hlen : r.1.2.length = 0
  · simp only [if_pos hlen, log_freeFrame]
  · simp only [if_neg hlen]
    by_cases hcode : (if r.1.2.data = .null then e.nullByte else byteAt r.1.2.data.bytes 0) =
        authSuccess
    · simp only [if_neg (not_not_intro hcode), log_freeFrame]
    · simp only [if_pos hcode, log_freeFrame]

variable (e mac conn w) in
/-- The frame for the response is there exactly when the login frame was sent. It is
empty, and the response is still to be received. -/
theorem sendLogin_result :
    match ((sendLogin e mac conn).run w).1.1 with
    | none => ¬ LoginSent e w
    | some rsp => LoginSent e w ∧ (∃ addr, rsp = emptyFrame addr 0) ∧
        ((sendLogin e mac conn).run w).2.mem.heap.next = (w.later 3).mem.heap.next ∧
        ((sendLogin e mac conn).run w).2.inbox = w.inbox := by
  cases hg : e.grant w.mem.heap.next (.frame .session) sizeofFrame with
  | false =>
    have hrun : ((sendLogin e mac conn).run w).1.1 = none := by
      simp only [sendLogin, newLoginFrame, mallocEmptyFrame, Prog.run_bind, run_liftMem,
        run_espushMalloc, hg, Bool.false_eq_true, if_false, Prog.run_pure]
    rw [hrun]
    intro h
    have hgranted := h.1
    rw [hg] at hgranted
    cases hgranted
  | true =>
    generalize hs : (writeFrame e { loginFrame w.mem.heap.next mac with txid := conn.txid + 1 }).run
      { w with mem := { w.mem with heap := w.mem.heap.acquire (.frame .session) } } = s
    obtain ⟨_, hfailed, hsent⟩ := writeFrame_login hg hs
    have hfree : ∀ m, (freeFrame (loginFrame w.mem.heap.next mac)).run m =
        ((), { m with heap := m.heap.release w.mem.heap.next }) := run_freeFrame_static rfl
    simp only [sendLogin, Prog.run_bind, run_liftMem, run_newLoginFrame hg, cloudWriteFrame, hs,
      Prog.run_pure, hfree, Prog.run_ite]
    by_cases hneg : s.1 < 0
    · simp only [if_pos hneg]
      exact hfailed hneg
    · obtain ⟨hnext, hinbox, hiff⟩ := hsent (Int.not_lt.mp hneg)
      rw [← hnext] at hiff
      simp only [if_neg hneg, mallocEmptyFrame, Prog.run_bind, run_espushMalloc, Ledger.next_release]
      cases hg2 : e.grant s.2.mem.heap.next (.frame .session) sizeofFrame with
      | false =>
        simp only [Bool.false_eq_true, if_false, Prog.run_pure]
        intro h
        have hgranted := hiff.mp h
        rw [hg2] at hgranted
        cases hgranted
      | true =>
        simp only [if_true, Prog.run_pure, addr_freshBlock]
        refine ⟨hiff.mpr hg2, ⟨_, rfl⟩, ?_, hinbox⟩
        rw [Ledger.next_acquire, Ledger.next_release, hnext]
        rfl

/-- The response's body is refused where `recv_frame` is called exactly when it is
refused three requests after the start. -/
theorem recvBodyRefused_congr {w' : World} (hnext : w'.mem.heap.next = w.mem.heap.next)
    (hinbox : w'.inbox = w.inbox) :
    RecvBodyRefused e .session w' ↔ RecvBodyRefused e .session w := by
  rw [RecvBodyRefused, RecvBodyRefused, recvDelivered_congr hnext hinbox, recvLeft_congr hinbox, hnext]

/-- A length that is not 0 is all that `cloud_authorization` asks for. -/
theorem trusts_iff_of_response {rsp : Frame} {s : (Option Frame × EspushConnection) × World}
    (hs : (sendLogin e mac conn).run w = s) (hrsp : s.1.1 = some rsp)
    {got : (Int × Frame) × World} (hgot : (recvFrame e .session rsp).run s.2 = got) :
    TrustsOnlyBodies e mac conn w ↔ (got.1.2.length ≠ 0 → BodyReceived got.1) := by
  have hsome : loginResponse e mac conn w = some got := by
    simp only [loginResponse, hs, hrsp, Option.map_some, hgot]
  have hlog := log_readResponse hgot
  obtain ⟨log, hread⟩ := run_readResponse hgot
  have hrun := run_cloudAuthorization_sendLogin e mac conn w
  simp only [hs, hrsp] at hrun
  constructor
  · intro ht hlen
    refine ht.reads got hsome ?_
    rw [hrun, hlog, if_neg hlen]
    exact List.cons_ne_self _ _
  · intro hbody
    refine ⟨?_, ?_⟩
    · intro got' hgot' hreads
      rw [hsome] at hgot'
      cases hgot'
      refine hbody fun hlen => hreads ?_
      rw [hrun, hlog, if_pos hlen]
    · rw [hrun]
      simp only [hread]
      constructor
      · intro hrc
        by_cases hlen : got.1.2.length = 0
        · rw [if_pos hlen] at hrc
          cases hrc
        · rw [if_neg hlen] at hrc
          have hrecv := hbody hlen
          rw [if_neg hrecv.data_ne_null] at hrc
          refine ⟨got, hsome, hrecv, ?_⟩
          by_cases hcode : byteAt got.1.2.data.bytes 0 = authSuccess
          · exact hcode
          · rw [if_neg hcode] at hrc
            cases hrc
      · rintro ⟨got', hgot', hrecv, hcode⟩
        rw [hsome] at hgot'
        cases hgot'
        rw [if_neg (Nat.ne_of_gt hrecv.2.1), if_neg hrecv.data_ne_null, if_pos hcode]

theorem trusts_only_bodies : TrustsOnlyBodies e mac conn w ↔ ¬ ResponseRefused e w := by
  have hsend := sendLogin_result e mac conn w
  have hrun := run_cloudAuthorization_sendLogin e mac conn w
  generalize hs : (sendLogin e mac conn).run w = s at hsend hrun
  rcases s with ⟨⟨_ | rsp, conn'⟩, w'⟩
  · have hnone : loginResponse e mac conn w = none := by rw [loginResponse, hs]; rfl
    refine iff_of_true ⟨fun got hgot => ?_, ?_⟩ fun h => hsend h.1
    · rw [hnone] at hgot
      cases hgot
    · rw [hrun]
      refine iff_of_false (fun h => by cases h) ?_
      rintro ⟨got, hgot, _⟩
      rw [hnone] at hgot
      cases hgot
  · obtain ⟨hsent, ⟨addr, rfl⟩, hnext, hinbox⟩ := hsend
    have hrefused : ResponseRefused e w ↔ RecvBodyRefused e .session w' := by
      rw [ResponseRefused, and_iff_right hsent, ← recvBodyRefused_congr hnext hinbox]
    have hres := recvFrame_result e .session (emptyFrame addr 0) w'
    rw [trusts_iff_of_response hs rfl rfl, hrefused]
    generalize (recvFrame e .session (emptyFrame addr 0)).run w' = got at hres
    cases hres with
    | short _ _ _ hno =>
      exact iff_of_true (fun h => absurd rfl h) fun h => hno ⟨h.1, h.2.1⟩
    | refused _ _ hdel hmax htwo hg =>
      refine iff_of_false (fun h => ?_) (not_not_intro ⟨hdel, hmax, htwo, hg⟩)
      have hlen : (withHeader (recvBuf e w').bytes (emptyFrame addr 0)).length ≠ 0 :=
        length_header_pos hdel htwo
      simp only [ne_eq] at h
      cases (h hlen).1
    | empty _ hdel htwo =>
      have hlen : (withHeader (recvBuf e w').bytes (emptyFrame addr 0)).length = 0 := by
        rw [length_withHeader_eq_zero, ofBe16_recvBuf hdel.1, htwo]
      refine iff_of_true (fun h => ?_) fun h => h.2.2.1 htwo
      simp only [hlen, ne_eq, not_true_eq_false] at h
    | body _ hdel hmax hlt hg =>
      have hleft := ofBe16_recvBuf (e := e) hdel.1
      have hlen : (withHeader (recvBuf e w').bytes (emptyFrame addr 0)).length = recvLeft w' - 2 := by
        rw [length_withHeader (by rw [hleft]; omega), hleft]
      refine iff_of_true (fun _ => ⟨rfl, ?_, ?_⟩) ?_
      · simp only [hlen]
        omega
      · simp only [hlen, Data.bytes, List.length_take, List.length_drop, length_recvBuf]
        omega
      · rintro ⟨_, _, _, hrefused⟩
        rw [hg] at hrefused
        cases hrefused

end Login

end FailedReceiveLemmas

open FailedReceiveLemmas

/-- A refused body, and nothing else, leaves a length without a body. `recv_frame`
passes it on, and `cloud_authorization` takes it for a response. -/
theorem failed_receive_leaves_empty_frame (e : Env) :
    (∀ (site : Site) (addr : Nat) (method : UInt8) (inData : Bytes) (inLength : Nat) (m : Mem),
      LeavesEmpty ((deserializeFrame e site inData inLength (emptyFrame addr method)).run m).1 ↔
        ¬ BodyRefused e site m.heap.next inData inLength) ∧
    (∀ (site : Site) (addr : Nat) (method : UInt8) (w : World),
      LeavesEmpty ((recvFrame e site (emptyFrame addr method)).run w).1 ↔
        ¬ RecvBodyRefused e site w) ∧
    ∀ (mac : Fin 6 → UInt8) (conn : EspushConnection) (w : World),
      TrustsOnlyBodies e mac conn w ↔ ¬ ResponseRefused e w :=
  ⟨fun _ _ _ => deserialize_leaves_empty, fun _ _ _ => recv_leaves_empty,
    fun _ _ _ => trusts_only_bodies⟩

/-- Every request but those for a body is granted. -/
def Env.withoutBodies : Env where
  soc := .w600
  grant := fun _ k size => decide (0 ≤ size) && match k with
    | .body _ => false
    | _ => true
  grant_neg := fun _ _ _ h => by rw [decide_eq_false (Int.not_le.mpr h), Bool.false_and]
  junk := fun _ _ => 0
  sendRc := fun _ len => len
  stale := fun _ => 0
  nullByte := 0
  strayPin := 0

/-- The response refuses the device with code 5, its body is refused, and the byte
at NULL lets the device in. -/
theorem login_without_response :
    ¬ LeavesEmpty ((recvFrame .withoutBodies .session (emptyFrame 0 0)).run
      (.start (deliveries [[0, 3, 0x81, 7], [5]]))).1 ∧
    ¬ TrustsOnlyBodies .withoutBodies (fun _ => 0) ⟨0, 0, none, none⟩
      (.start (deliveries [[0, 3, 0x81, 7], [5]])) := by
  refine ⟨fun h => ?_, fun h => ?_⟩
  · have hlen : ((recvFrame .withoutBodies .session (emptyFrame 0 0)).run
        (.start (deliveries [[0, 3, 0x81, 7], [5]]))).1.2.length = 1 := by decide +kernel
    have hempty := (h (by decide +kernel)).1
    rw [hlen] at hempty
    cases hempty
  · obtain ⟨got, hgot, hrecv, _⟩ := h.accepts.mp (by decide +kernel)
    have hrc : (loginResponse .withoutBodies (fun _ => 0) ⟨0, 0, none, none⟩
        (.start (deliveries [[0, 3, 0x81, 7], [5]]))).map (fun got => got.1.1) = some (-1) := by
      decide +kernel
    rw [hgot, Option.map_some, hrecv.1] at hrc
    cases hrc

end EspushW60x
