import EspushW60x.Session
import EspushW60x.HeapBalance

/-!
# Login

`cloud_authorization` sends the login frame and waits for one response. It returns
-1 for every failure on the way as well as for a response that refuses the device.

Results:
* `readResponse_result`, `cloudAuthorization_result`: the return code in terms of the
  answers from outside. Both frames are freed on every exit; the scratch block of
  `recv_frame` stays exactly when a response was received.
-/

namespace EspushW60x

open Lib EventLoopLemmas

/-! ## Conditions -/

/-- The world `n` requests later. -/
def World.later (w : World) (n : Nat) : World :=
  { w with mem := { w.mem with heap := w.mem.heap.skip n } }

/-- The length of the login frame's body. -/
def loginLength : Nat := 44

/-- The login frame is granted and sent, and the frame for the response is granted. -/
def LoginSent (e : Env) (w : World) : Prop :=
  e.grant w.mem.heap.next (.frame .session) sizeofFrame = true ∧
    e.grant (w.mem.heap.next + 1) .wireBuf ((loginLength : Int) + 4) = true ∧
    0 ≤ e.sendRc w.sends (loginLength + 4) ∧
    e.grant (w.mem.heap.next + 2) (.frame .session) sizeofFrame = true

instance (e : Env) (w : World) : Decidable (LoginSent e w) :=
  inferInstanceAs (Decidable (_ ∧ _ ∧ _ ∧ _))

/-- A response arrives whole, is within the size limits, and is not empty. -/
def ResponseArrives (e : Env) (w : World) : Prop :=
  RecvDelivered e w ∧ recvLeft w ≤ maxFrameLeft ∧ recvLeft w ≠ 2

instance (e : Env) (w : World) : Decidable (ResponseArrives e w) :=
  inferInstanceAs (Decidable (_ ∧ _ ∧ _))

/-- The body of the response is granted. -/
def responseStored (e : Env) (w : World) : Bool :=
  e.grant (w.mem.heap.next + 1) (.body .session) ((recvLeft w : Int) - 2)

/-- The first byte of the response's body, as `cloud_authorization` reads it. -/
def responseCode (e : Env) (w : World) : UInt8 :=
  if responseStored e w then byteAt (recvBody w).2.1 0 else e.nullByte

/-- A response arrives and its code is the one for success. -/
def ResponseAccepts (e : Env) (w : World) : Prop :=
  ResponseArrives e w ∧ responseCode e w = authSuccess

instance (e : Env) (w : World) : Decidable (ResponseAccepts e w) :=
  inferInstanceAs (Decidable (_ ∧ _))

/-- The device is let in. The response is received three requests later. -/
def LoginAccepted (e : Env) (w : World) : Prop :=
  LoginSent e w ∧ ResponseAccepts e (w.later 3)

instance (e : Env) (w : World) : Decidable (LoginAccepted e w) :=
  inferInstanceAs (Decidable (_ ∧ _))

/-- The server's response is received. -/
def ResponseReceived (e : Env) (w : World) : Prop :=
  LoginSent e w ∧ ReceivesMessage e .session (w.later 3)

instance (e : Env) (w : World) : Decidable (ResponseReceived e w) :=
  inferInstanceAs (Decidable (_ ∧ _))

/-! ## The response -/

namespace LoginLemmas

section Congr

variable {e : Env} {w w' : World} (hnext : w'.mem.heap.next = w.mem.heap.next)
  (hinbox : w'.inbox = w.inbox)

include hinbox in
theorem recvHead_congr : recvHead w' = recvHead w := by rw [recvHead, recvHead, hinbox]

include hinbox in
theorem recvLeft_congr : recvLeft w' = recvLeft w := by
  rw [recvLeft, recvLeft, recvHead_congr hinbox]

include hinbox in
theorem recvBody_congr : recvBody w' = recvBody w := by
  rw [recvBody, recvBody, recvLeft_congr hinbox, recvHead_congr hinbox]

include hnext hinbox in
theorem recvDelivered_congr : RecvDelivered e w' ↔ RecvDelivered e w := by
  rw [RecvDelivered, RecvDelivered, recvLeft_congr hinbox, recvBody_congr hinbox,
    recvHead_congr hinbox, hnext]

include hnext hinbox in
theorem responseAccepts_congr : ResponseAccepts e w' ↔ ResponseAccepts e w := by
  rw [ResponseAccepts, ResponseAccepts, ResponseArrives, ResponseArrives, responseCode,
    responseCode, responseStored, responseStored, recvDelivered_congr hnext hinbox,
    recvLeft_congr hinbox, recvBody_congr hinbox, hnext]

include hnext hinbox in
theorem receivesMessage_congr {site : Site} :
    ReceivesMessage e site w' ↔ ReceivesMessage e site w := by
  rw [ReceivesMessage, ReceivesMessage, recvDelivered_congr hnext hinbox, recvLeft_congr hinbox,
    hnext]

include hnext hinbox in
theorem loginAccepted_congr (hsends : w'.sends = w.sends) :
    LoginAccepted e w' ↔ LoginAccepted e w := by
  have hlater : (w'.later 3).mem.heap.next = (w.later 3).mem.heap.next :=
    congrArg (· + 3) hnext
  rw [LoginAccepted, LoginAccepted, LoginSent, LoginSent, hnext, hsends,
    responseAccepts_congr hlater hinbox]

include hnext hinbox in
theorem responseReceived_congr (hsends : w'.sends = w.sends) :
    ResponseReceived e w' ↔ ResponseReceived e w := by
  have hlater : (w'.later 3).mem.heap.next = (w.later 3).mem.heap.next :=
    congrArg (· + 3) hnext
  rw [ResponseReceived, ResponseReceived, LoginSent, LoginSent, hnext, hsends,
    receivesMessage_congr hlater hinbox]

end Congr

/-- The body in the scratch block is what the second `recv` found. -/
theorem body_recvBuf {e : Env} {w : World} (h : RecvDelivered e w) (hlt : 2 < recvLeft w) :
    ((recvBuf e w).bytes.drop 4).take (recvLeft w - 2) = (recvBody w).2.1 := by
  have hlen : (recvBody w).2.1.length = recvLeft w - 2 := by
    have hrc := nextDelivery_rc ((recvLeft w : Int) - 2) (recvHead w).2.2
    have hbody := h.2.2
    rw [recvBody] at hbody ⊢
    rw [hrc, hbody]
    omega
  have hsize : ((freshBlock e w.mem.heap.next (recvLeft w + 2 + 1 : Nat)).store 0
      (recvHead w).2.1).bytes.length = recvLeft w + 3 := by
    rw [Block.bytes_store, length_patch, length_freshBlock]
    rfl
  rw [recvBuf, Block.bytes_store, List.take_drop, ← hlen, take_patch (by omega),
    List.drop_left']
  rw [List.length_take]
  omega

theorem length_header_pos {e : Env} {w : World} {f : Frame} (h : RecvDelivered e w)
    (hne : recvLeft w ≠ 2) : ¬ (withHeader (recvBuf e w).bytes f).length = 0 := by
  rw [length_withHeader_eq_zero, ofBe16_recvBuf h.1]
  exact hne

/-- The response is read once it was received. -/
theorem run_readResponse {e : Env} {rsp : Frame} {w : World} {r : (Int × Frame) × World}
    (hr : (recvFrame e .session rsp).run w = r) :
    ∃ log, (readResponse e rsp).run w =
      (if r.1.2.length = 0 then -1
        else if (if r.1.2.data = .null then e.nullByte else byteAt r.1.2.data.bytes 0) = authSuccess
          then 0 else -1,
        { r.2 with mem := ((freeFrame r.1.2).run ⟨r.2.mem.heap, log⟩).2 }) := by
  simp only [readResponse, Prog.run_bind, hr, Prog.run_ite, run_liftMem, run_touch, Prog.run_pure]
  by_cases hlen : r.1.2.length = 0
  · simp only [if_pos hlen]
    exact ⟨_, rfl⟩
  · simp only [if_neg hlen]
    by_cases hcode : (if r.1.2.data = .null then e.nullByte else byteAt r.1.2.data.bytes 0) =
        authSuccess
    · simp only [if_pos hcode, if_neg (not_not_intro hcode)]
      exact ⟨_, rfl⟩
    · simp only [if_neg hcode, if_pos hcode]
      exact ⟨_, rfl⟩

end LoginLemmas

open LoginLemmas

/-- The frame for the response was requested from the ledger `l`. It is freed on
every exit; the scratch block of a received response is not. -/
theorem readResponse_result {e : Env} {w : World} {l : Ledger Kind}
    (hl : w.mem.heap = l.acquire (.frame .session)) :
    ((readResponse e ⟨l.next, 0, 0, .static, .null, 0⟩).run w).1 =
        (if ResponseAccepts e w then 0 else -1) ∧
      ∃ new, l.Extends ((readResponse e ⟨l.next, 0, 0, .static, .null, 0⟩).run w).2.mem.heap new ∧
        (∀ p ∈ new, p.2 = .scratch) ∧ (new = [] ↔ ¬ ReceivesMessage e .session w) := by
  have hnil : ∀ p ∈ ([] : List (Nat × Kind)), p.2 = .scratch := List.forall_mem_nil _
  have hscratch : ∀ (n : Nat), ∀ p ∈ [(n, Kind.scratch)], p.2 = .scratch := by
    intro n p hp
    rw [List.mem_singleton.mp hp]
  have h := recvFrame_result e .session ⟨l.next, 0, 0, .static, .null, 0⟩ w
  generalize hr : (recvFrame e .session ⟨l.next, 0, 0, .static, .null, 0⟩).run w = r at h
  obtain ⟨log, hrun⟩ := run_readResponse hr
  rw [hrun]
  cases h with
  | short heap _ _ hno hext =>
    have hrej : ¬ ResponseAccepts e w := fun h => hno ⟨h.1.1, h.1.2.1⟩
    rw [hl] at hext
    rw [if_neg hrej, run_freeFrame_null rfl]
    exact ⟨rfl, [], hext.release_oldest, hnil,
      iff_of_true rfl fun h => hno ⟨h.1, h.2.1⟩⟩
  | refused heap _ hdel hmax htwo hg hext =>
    have hcode : responseCode e w = e.nullByte := if_neg (by rw [responseStored, hg]; decide)
    have hiff : ResponseAccepts e w ↔ e.nullByte = authSuccess := by
      rw [ResponseAccepts, hcode]
      exact and_iff_right ⟨hdel, hmax, htwo⟩
    rw [hl] at hext
    simp only [if_neg (length_header_pos hdel htwo), if_true, hiff]
    rw [run_freeFrame_null rfl]
    refine ⟨trivial, [], hext.release_oldest, hnil, iff_of_true rfl ?_⟩
    rintro ⟨_, _, h | h⟩
    · exact htwo h
    · rw [hg] at h
      cases h
  | empty _ hdel htwo =>
    have hlen : (withHeader (recvBuf e w).bytes ⟨l.next, 0, 0, .static, .null, 0⟩).length = 0 := by
      rw [length_withHeader_eq_zero, ofBe16_recvBuf hdel.1]
      exact htwo
    have hrej : ¬ ResponseAccepts e w := fun h => h.1.2.2 htwo
    simp only [hlen, if_true, if_neg hrej]
    rw [run_freeFrame_null rfl, hl]
    refine ⟨trivial, _, ((Ledger.Extends.refl _).acquire Kind.scratch).release_oldest, hscratch _,
      iff_of_false (List.cons_ne_nil _ _) ?_⟩
    exact not_not_intro ⟨hdel, by rw [htwo]; decide, .inl htwo⟩
  | body _ hdel hmax hlt hg =>
    have htwo : recvLeft w ≠ 2 := Nat.ne_of_gt hlt
    have hcode : responseCode e w = byteAt (recvBody w).2.1 0 := if_pos hg
    have hiff : ResponseAccepts e w ↔ byteAt (recvBody w).2.1 0 = authSuccess := by
      rw [ResponseAccepts, hcode]
      exact and_iff_right ⟨hdel, hmax, htwo⟩
    simp only [if_neg (length_header_pos hdel htwo), reduceCtorEq, if_false, Data.bytes,
      body_recvBuf hdel hlt, hiff]
    rw [run_freeFrame_dyn rfl rfl, hl]
    have hext := (((Ledger.Extends.refl (l.acquire (.frame .session))).acquire
      Kind.scratch).acquire (Kind.body .session)).release
    refine ⟨trivial, _, hext.release_oldest, hscratch _, iff_of_false (List.cons_ne_nil _ _) ?_⟩
    exact not_not_intro ⟨hdel, hmax, .inr hg⟩

/-! ## `cloud_authorization` -/

namespace LoginLemmas

theorem length_getImei (mac : Fin 6 → UInt8) : (getImei mac).length = 16 := by
  simp [getImei, ascii]

/-- The login frame as it is made. -/
def loginFrame (n : Nat) (mac : Fin 6 → UInt8) : Frame :=
  let bodyBuf := ascii "\x7b\"imei\":\"" ++ getImei mac ++ ascii "\",\"method\":\"LOGIN\"\x7d"
  ⟨n, methodLogin, 0, .static, .static bodyBuf, bodyBuf.length⟩

theorem length_loginFrame (n : Nat) (mac : Fin 6 → UInt8) :
    (loginFrame n mac).length = loginLength := by
  simp [loginFrame, ascii, length_getImei, loginLength]

theorem run_freeFrame_static {f : Frame} (h : f.dataFlag = .static) (m : Mem) :
    (freeFrame f).run m = ((), { m with heap := m.heap.release f.addr }) := by
  cases hd : f.data with
  | null => exact run_freeFrame_null hd m
  | static bytes =>
    simp only [freeFrame, hd]
    rfl
  | dyn block =>
    simp only [freeFrame, hd, h]
    rfl

theorem run_newLoginFrame {e : Env} {mac : Fin 6 → UInt8} {m : Mem}
    (hg : e.grant m.heap.next (.frame .session) sizeofFrame = true) :
    (newLoginFrame e (getImei mac)).run m =
      (some (loginFrame m.heap.next mac), { m with heap := m.heap.acquire (.frame .session) }) := by
  simp only [newLoginFrame, mallocEmptyFrame, Prog.run_bind, run_espushMalloc, hg, if_true,
    Prog.run_pure, addr_freshBlock]
  rfl

/-- `cloud_authorization` once the login frame is granted. -/
theorem run_cloudAuthorization {e : Env} {mac : Fin 6 → UInt8} {conn : EspushConnection}
    {w : World} (hg : e.grant w.mem.heap.next (.frame .session) sizeofFrame = true)
    {s : Int × World}
    (hs : (writeFrame e { loginFrame w.mem.heap.next mac with txid := conn.txid + 1 }).run
      { w with mem := { w.mem with heap := w.mem.heap.acquire (.frame .session) } } = s) :
    (cloudAuthorization e mac conn).run w =
      let w2 := { s.2 with mem := { s.2.mem with heap := s.2.mem.heap.release w.mem.heap.next } }
      if s.1 < 0 then ((-1, { conn with txid := conn.txid + 1 }), w2)
      else if e.grant s.2.mem.heap.next (.frame .session) sizeofFrame then
        let r := (readResponse e ⟨s.2.mem.heap.next, 0, 0, .static, .null, 0⟩).run
          { w2 with mem := { w2.mem with heap := w2.mem.heap.acquire (.frame .session) } }
        ((r.1, { conn with txid := conn.txid + 1 }), r.2)
      else ((-1, { conn with txid := conn.txid + 1 }),
        { w2 with mem := { w2.mem with heap := w2.mem.heap.refuse } }) := by
  have hfree : ∀ m, (freeFrame (loginFrame w.mem.heap.next mac)).run m =
      ((), { m with heap := m.heap.release w.mem.heap.next }) := run_freeFrame_static rfl
  simp only [cloudAuthorization, Prog.run_bind, run_liftMem, run_newLoginFrame hg, cloudWriteFrame, hs,
    Prog.run_pure, hfree, Prog.run_ite]
  split
  · rfl
  · cases hg2 : e.grant s.2.mem.heap.next (.frame .session) sizeofFrame with
    | false =>
      simp only [mallocEmptyFrame, Prog.run_bind, run_espushMalloc, Ledger.next_release, hg2,
        Bool.false_eq_true, if_false, Prog.run_pure]
    | true =>
      simp only [mallocEmptyFrame, Prog.run_bind, run_espushMalloc, Ledger.next_release, hg2,
        if_true, Prog.run_pure, addr_freshBlock]

/-- The login frame is sent from a frame that is then freed. -/
theorem writeFrame_login {e : Env} {mac : Fin 6 → UInt8} {txid : UInt8} {w : World}
    (hg : e.grant w.mem.heap.next (.frame .session) sizeofFrame = true) {s : Int × World}
    (hs : (writeFrame e { loginFrame w.mem.heap.next mac with txid := txid }).run
      { w with mem := { w.mem with heap := w.mem.heap.acquire (.frame .session) } } = s) :
    w.mem.heap.Extends (s.2.mem.heap.release w.mem.heap.next) [] ∧
      (s.1 < 0 → ¬ LoginSent e w) ∧
      (0 ≤ s.1 → s.2.mem.heap.next = w.mem.heap.next + 2 ∧ s.2.inbox = w.inbox ∧
        (LoginSent e w ↔ e.grant (w.mem.heap.next + 2) (.frame .session) sizeofFrame = true)) := by
  have hlen := length_loginFrame w.mem.heap.next mac
  have hwrite := writeFrame_result (e := e) (f := { loginFrame w.mem.heap.next mac with txid := txid })
    (w := { w with mem := { w.mem with heap := w.mem.heap.acquire (.frame .session) } })
    (Nat.le_refl _) (by rw [hlen]; decide)
  rw [hs] at hwrite
  clear hs
  cases hwrite with
  | refused hwire =>
    simp only [hlen, Ledger.next_acquire] at hwire
    refine ⟨(Ledger.Extends.refl _).refuse.release_oldest, ?_, ?_⟩
    · rintro - ⟨_, hwire', _⟩
      rw [hwire] at hwire'
      cases hwire'
    · exact fun h => absurd h (show ¬ (0 : Int) ≤ -1 by decide)
  | sent log hwire =>
    simp only [hlen, Ledger.next_acquire] at hwire ⊢
    refine ⟨((Ledger.Extends.refl _).acquire Kind.wireBuf).release.release_oldest, ?_, ?_⟩
    · exact fun h hsent => Int.not_lt.mpr hsent.2.2.1 h
    · refine fun h => ⟨rfl, trivial, ?_⟩
      constructor
      · exact fun hsent => hsent.2.2.2
      · exact fun hg2 => ⟨hg, hwire, h, hg2⟩

end LoginLemmas

/-- `cloud_authorization` succeeds exactly when the device is let in. It changes the
connection in nothing but `txid`. -/
theorem cloudAuthorization_result (e : Env) (mac : Fin 6 → UInt8) (conn : EspushConnection)
    (w : World) :
    ((cloudAuthorization e mac conn).run w).1.1 = (if LoginAccepted e w then 0 else -1) ∧
      (∃ txid, ((cloudAuthorization e mac conn).run w).1.2 = { conn with txid := txid }) ∧
      ∃ new, w.mem.heap.Extends ((cloudAuthorization e mac conn).run w).2.mem.heap new ∧
        (∀ p ∈ new, p.2 = .scratch) ∧ (new = [] ↔ ¬ ResponseReceived e w) := by
  have hnil : ∀ p ∈ ([] : List (Nat × Kind)), p.2 = .scratch := List.forall_mem_nil _
  cases hg : e.grant w.mem.heap.next (.frame .session) sizeofFrame with
  | false =>
    have hno : ¬ LoginSent e w := fun h => by
      have := h.1
      rw [hg] at this
      cases this
    have hrun : (cloudAuthorization e mac conn).run w =
        ((-1, conn), { w with mem := { w.mem with heap := w.mem.heap.refuse } }) := by
      simp only [cloudAuthorization, newLoginFrame, mallocEmptyFrame, Prog.run_bind, run_liftMem,
        run_espushMalloc, hg, Bool.false_eq_true, if_false, Prog.run_pure]
    rw [hrun, if_neg fun h => hno h.1]
    exact ⟨rfl, ⟨conn.txid, rfl⟩, [], (Ledger.Extends.refl _).refuse, hnil,
      iff_of_true rfl fun h => hno h.1⟩
  | true =>
    generalize hs : (writeFrame e { loginFrame w.mem.heap.next mac with txid := conn.txid + 1 }).run
      { w with mem := { w.mem with heap := w.mem.heap.acquire (.frame .session) } } = s
    obtain ⟨hext, hfailed, hsent⟩ := writeFrame_login hg hs
    rw [run_cloudAuthorization hg hs]
    by_cases hneg : s.1 < 0
    · have hno := hfailed hneg
      rw [if_pos hneg, if_neg fun h => hno h.1]
      exact ⟨rfl, ⟨_, rfl⟩, [], hext, hnil, iff_of_true rfl fun h => hno h.1⟩
    · obtain ⟨hnext, hinbox, hiff⟩ := hsent (Int.not_lt.mp hneg)
      rw [← hnext] at hiff
      rw [if_neg hneg]
      cases hg2 : e.grant s.2.mem.heap.next (.frame .session) sizeofFrame with
      | false =>
        have hno : ¬ LoginSent e w := fun h => by
          have := hiff.mp h
          rw [hg2] at this
          cases this
        rw [if_neg Bool.false_ne_true, if_neg fun h => hno h.1]
        exact ⟨rfl, ⟨_, rfl⟩, [], hext.refuse, hnil, iff_of_true rfl fun h => hno h.1⟩
      | true =>
        have hyes := hiff.mpr hg2
        obtain ⟨w3, hw3⟩ : ∃ w3 : World, w3 = { s.2 with mem := { s.2.mem with
            heap := (s.2.mem.heap.release w.mem.heap.next).acquire (.frame .session) } } := ⟨_, rfl⟩
        have hheap : w3.mem.heap =
            (s.2.mem.heap.release w.mem.heap.next).acquire (.frame .session) := by rw [hw3]
        have hnext3 : w3.mem.heap.next = (w.later 3).mem.heap.next := by
          rw [hheap, Ledger.next_acquire, Ledger.next_release, hnext]
          rfl
        have hinbox3 : w3.inbox = (w.later 3).inbox := by
          rw [hw3]
          exact hinbox
        obtain ⟨hrc, new, hnew, hkind, hrecv⟩ := readResponse_result hheap
        simp only [responseAccepts_congr hnext3 hinbox3] at hrc
        rw [receivesMessage_congr hnext3 hinbox3] at hrecv
        subst hw3
        rw [if_pos rfl]
        refine ⟨?_, ⟨_, rfl⟩, new ++ [], hext.trans hnew, ?_, ?_⟩
        · simp only [LoginAccepted, hyes, true_and]
          exact hrc
        · rw [List.append_nil]
          exact hkind
        · rw [List.append_nil, ResponseReceived, and_iff_right hyes]
          exact hrecv

end EspushW60x
