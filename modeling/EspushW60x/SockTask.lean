import EspushW60x.Login
import EspushW60x.Resources

/-!
# One session: `sock_task`

A session asks for the address of the server, connects to it, logs in and runs the
select loop. The conditions here are about the answers from outside: which attempt
to connect succeeds, and so how many requests were made when the login starts.

`sockTask` goes on after a reply whose address does not fit. `SockTaskMay` leaves
open how the source then ends.

Results:
* `connectFrom_result`: the attempts to connect;
* `sockTask_result`: the ways a session ends, with its return code and with what is
  still live then;
* `bootstrapInside_iff`: the replies on which a session is known to end so.
-/

namespace EspushW60x

open Lib BootstrapLemmas LoginLemmas HeapBalanceLemmas

/-! ## Conditions -/

/-- The address in the reply. -/
def parsedAddress (o : Outside) : ServerAddress :=
  ((parseResponse o.json o.staleAddr).run Mem.empty).1.2

/-- Attempt `i + k` to connect succeeds and those from `i` to it fail. Its socket is
the request number `n + k`. -/
def ConnectsAt (e : Env) (o : Outside) (servAddr : Nat × Nat) (n i k : Nat) : Prop :=
  (∀ j < k, e.grant (n + j) .socket 0 = true ∧ o.connect servAddr (i + j) < 0) ∧
    e.grant (n + k) .socket 0 = true ∧ 0 ≤ o.connect servAddr (i + k)

instance (e : Env) (o : Outside) (servAddr : Nat × Nat) (n i k : Nat) :
    Decidable (ConnectsAt e o servAddr n i k) :=
  inferInstanceAs (Decidable ((∀ j < k, _) ∧ _ ∧ _))

/-- The reply is parsed, its host name is resolved, and attempt `k` to connect
succeeds. The login then starts `k + 3` requests after the session. -/
def LoginReached (e : Env) (o : Outside) (w : World) (k : Nat) : Prop :=
  ReplyRead o ∧ ReplyParses o ∧ k < 5 ∧
    ∃ server, dnsQueryByname o (cString (parsedAddress o).host) = some server ∧
      ConnectsAt e o (server, (parsedAddress o).port) (w.mem.heap.next + 2) 0 k

theorem LoginReached.unique {e : Env} {o : Outside} {w : World} {k k' : Nat}
    (h : LoginReached e o w k) (h' : LoginReached e o w k') : k = k' := by
  obtain ⟨_, _, _, server, hdns, hfail, _, hok⟩ := h
  obtain ⟨_, _, _, server', hdns', hfail', _, hok'⟩ := h'
  rw [hdns] at hdns'
  cases hdns'
  rcases Nat.lt_trichotomy k k' with hlt | heq | hlt
  · exact absurd (hfail' k hlt).2 (Int.not_lt.mpr hok)
  · exact heq
  · exact absurd (hfail k' hlt).2 (Int.not_lt.mpr hok')

theorem LoginReached.exists_iff {e : Env} {o : Outside} {w : World} {k : Nat}
    (h : LoginReached e o w k) {P : Nat → Prop} : P k ↔ ∃ k', LoginReached e o w k' ∧ P k' := by
  constructor
  · exact fun hp => ⟨k, h, hp⟩
  · rintro ⟨k', h', hp⟩
    obtain rfl := h.unique h'
    exact hp

/-! ## Replies that do not fit -/

/-- `bootstrap` stays inside the objects that it reads and writes. -/
def BootstrapInside (o : Outside) (w : World) : Prop :=
  w.mem.AccessesInside ((bootstrap o o.staleAddr).run w.mem).2

/-- The ways a session of the source may end. `bootstrap` copies the address into
`sock_task`'s local `addr`. A copy past the end of `host` takes `port` and `use_tls` into
the name, or writes over the rest of the stack, and a number is copied from NULL: the
session may then end in any way. -/
def SockTaskMay (e : Env) (o : Outside) (w : World) :
    (Int × EspushConnection) × World → Prop :=
  MayEnd (BootstrapInside o w) ((sockTask e o).run w)

/-- The ways a number of sessions may end, one after the other. -/
inductive EspushTaskMay (e : Env) : List (Outside × List Delivery) → World → World → Prop
  | nil (w : World) : EspushTaskMay e [] w w
  | cons {o : Outside} {inbox : List Delivery} {rounds : List (Outside × List Delivery)}
      {w w' : World} {r : (Int × EspushConnection) × World} :
      SockTaskMay e o { w with inbox := inbox } r → EspushTaskMay e rounds r.2 w' →
      EspushTaskMay e ((o, inbox) :: rounds) w w'

theorem bootstrapInside_iff (o : Outside) (w : World) :
    BootstrapInside o w ↔ (ReplyRead o → ReplyParses o → AddressFits o) :=
  bootstrap_inside o o.staleAddr w.mem

/-- `espushTask` is one of the ways. -/
theorem espushTaskMay_run (e : Env) (rounds : List (Outside × List Delivery)) (w : World) :
    EspushTaskMay e rounds w ((espushTask e rounds).run w).2 := by
  induction rounds generalizing w with
  | nil => exact .nil w
  | cons r rounds ih => exact .cons .self (ih _)

/-- It is the only one when every reply fits. -/
theorem EspushTaskMay.eq_run {e : Env} {rounds : List (Outside × List Delivery)} {w w' : World}
    (h : EspushTaskMay e rounds w w')
    (hfits : ∀ r ∈ rounds, ReplyRead r.1 → ReplyParses r.1 → AddressFits r.1) :
    w' = ((espushTask e rounds).run w).2 := by
  induction h with
  | nil => rfl
  | cons hr _ ih =>
    rw [List.forall_mem_cons] at hfits
    have hend := hr.eq_of_isDefined ((bootstrapInside_iff _ _).mpr hfits.1)
    rw [ih hfits.2, hend]
    rfl

/-! ## Connecting -/

section Connect

variable {e : Env} {o : Outside} {servAddr : Nat × Nat}

/-- The ways the attempts from `i` on to connect end, with `n` attempts left. -/
inductive ConnectResult (e : Env) (o : Outside) (servAddr : Nat × Nat) (n i : Nat) (m : Mem) :
    (Int × Option Nat) × Mem → Prop
  | failed (rc : Int) (heap : Ledger Kind) :
      (∀ k < n, ¬ ConnectsAt e o servAddr m.heap.next i k) → m.heap.Extends heap [] →
      ConnectResult e o servAddr n i m ((rc, none), { m with heap := heap })
  | connected (k : Nat) (rc : Int) (heap : Ledger Kind) : k < n →
      ConnectsAt e o servAddr m.heap.next i k → m.heap.Extends heap [] →
      heap.next = m.heap.next + k →
      ConnectResult e o servAddr n i m
        ((rc, some heap.next), { m with heap := heap.acquire .socket })

/-- After a failed attempt, the next one is attempt 0 of the rest. -/
theorem connectsAt_succ {n i k : Nat} (hg : e.grant n .socket 0 = true)
    (hfail : o.connect servAddr i < 0) :
    ConnectsAt e o servAddr n i (k + 1) ↔ ConnectsAt e o servAddr (n + 1) (i + 1) k := by
  constructor
  · rintro ⟨hbefore, hat⟩
    refine ⟨fun j hj => ?_, ?_⟩
    · have h := hbefore (j + 1) (Nat.succ_lt_succ hj)
      rwa [← Nat.add_assoc, Nat.add_right_comm n, ← Nat.add_assoc, Nat.add_right_comm i] at h
    · rwa [← Nat.add_assoc, Nat.add_right_comm n, ← Nat.add_assoc, Nat.add_right_comm i] at hat
  · rintro ⟨hbefore, hat⟩
    refine ⟨fun j hj => ?_, ?_⟩
    · cases j with
      | zero => exact ⟨hg, hfail⟩
      | succ j =>
        have h := hbefore j (Nat.lt_of_succ_lt_succ hj)
        rwa [Nat.add_right_comm n, Nat.add_assoc n, Nat.add_right_comm i, Nat.add_assoc i] at h
    · rwa [Nat.add_right_comm n, Nat.add_assoc n, Nat.add_right_comm i, Nat.add_assoc i] at hat

variable (e o servAddr) in
theorem connectFrom_result (n i : Nat) (rc : Int) (m : Mem) :
    ConnectResult e o servAddr n i m ((connectFrom e o servAddr n i rc).run m) := by
  have hrefl := Ledger.Extends.refl m.heap
  induction n generalizing i rc m with
  | zero => exact .failed rc m.heap (fun k hk => absurd hk (Nat.not_lt_zero k)) hrefl
  | succ n ih =>
    cases hg : e.grant m.heap.next .socket 0 with
    | false =>
      have hrun : (connectFrom e o servAddr (n + 1) i rc).run m =
          ((-1, none), { m with heap := m.heap.refuse }) := by
        simp only [connectFrom, Prog.run_bind, run_openHandle, hg, Bool.false_eq_true, if_false,
          Prog.run_pure]
      rw [hrun]
      refine .failed _ _ (fun k _ h => ?_) hrefl.refuse
      have hg' : e.grant m.heap.next .socket 0 = true := by
        cases k with
        | zero => exact h.2.1
        | succ k => exact (h.1 0 (Nat.succ_pos k)).1
      rw [hg] at hg'
      cases hg'
    | true =>
      by_cases hneg : o.connect servAddr i < 0
      · have hrun : (connectFrom e o servAddr (n + 1) i rc).run m =
            (connectFrom e o servAddr n (i + 1) (o.connect servAddr i)).run
              { m with heap := (m.heap.acquire .socket).release m.heap.next } := by
          simp only [connectFrom, Prog.run_bind, run_openHandle, hg, if_true, if_pos hneg,
            run_espushFree]
        rw [hrun]
        have hnext : m.heap.Extends ((m.heap.acquire .socket).release m.heap.next) [] :=
          (hrefl.acquire _).release
        have h := ih (i + 1) (o.connect servAddr i)
          { m with heap := (m.heap.acquire .socket).release m.heap.next } (Ledger.Extends.refl _)
        generalize (connectFrom e o servAddr n (i + 1) (o.connect servAddr i)).run
          { m with heap := (m.heap.acquire .socket).release m.heap.next } = r at h
        cases h with
        | failed rc' heap hno hext =>
          refine .failed rc' heap (fun k hk h => ?_) (hnext.trans hext)
          cases k with
          | zero => exact absurd hneg (Int.not_lt.mpr h.2.2)
          | succ k => exact hno k (Nat.lt_of_succ_lt_succ hk) ((connectsAt_succ hg hneg).mp h)
        | connected k rc' heap hk hat hext hheap =>
          refine .connected (k + 1) rc' heap (Nat.succ_lt_succ hk)
            ((connectsAt_succ hg hneg).mpr hat) (hnext.trans hext) ?_
          rw [hheap]
          show m.heap.next + 1 + k = _
          omega
      · have hrun : (connectFrom e o servAddr (n + 1) i rc).run m =
            ((o.connect servAddr i, some m.heap.next),
              { m with heap := m.heap.acquire .socket }) := by
          simp only [connectFrom, Prog.run_bind, run_openHandle, hg, if_true, if_neg hneg,
            Prog.run_pure]
        rw [hrun]
        refine .connected 0 _ m.heap (Nat.succ_pos n) ⟨fun j hj => absurd hj (Nat.not_lt_zero j), hg,
          Int.not_lt.mp hneg⟩ hrefl rfl

end Connect

/-! ## `bootstrap` -/

theorem run_parseResponse_parsed {o : Outside} (h : ReplyParses o) (m : Mem) :
    ∃ log, (parseResponse o.json o.staleAddr).run m =
      ((0, parsedAddress o), ⟨(m.heap.acquire .jsonTree).release m.heap.next, log⟩) := by
  cases hj : o.json with
  | none =>
    rw [ReplyParses, hj] at h
    exact h.elim
  | some root =>
    obtain ⟨ha, hp, ht⟩ := (replyParses_some hj).mp h
    obtain ⟨jAddress, ha⟩ := Option.isSome_iff_exists.mp ha
    obtain ⟨jPort, hp⟩ := Option.isSome_iff_exists.mp hp
    obtain ⟨jTls, ht⟩ := Option.isSome_iff_exists.mp ht
    simp only [parsedAddress, hj, run_parseResponse_fields o.staleAddr _ ha hp ht]
    exact ⟨_, rfl⟩

/-- A reply that parses makes two requests and leaves nothing behind. -/
theorem run_bootstrap_parsed {o : Outside} (hread : ReplyRead o) (hparse : ReplyParses o)
    (m : Mem) :
    ∃ heap log, (bootstrap o o.staleAddr).run m = ((0, parsedAddress o), ⟨heap, log⟩) ∧
      m.heap.Extends heap [] ∧ heap.next = m.heap.next + 2 := by
  obtain ⟨log, hrun⟩ := run_parseResponse_parsed hparse
    { m with heap := m.heap.acquire .replyText }
  refine ⟨_, log, ?_, ((Ledger.Extends.refl (m.heap.acquire .replyText)).acquire
    Kind.jsonTree).release.release_oldest, rfl⟩
  rw [run_bootstrap_parse hread]
  simp only [hrun, Int.lt_irrefl, if_false]

/-! ## `sock_task` -/

/-- A connected socket, requested from the ledger `l`, is freed on every exit. -/
theorem sockTaskConnected_result {e : Env} {o : Outside} {w : World} {l : Ledger Kind}
    (hl : w.mem.heap = l.acquire .socket) {r : (Int × EspushConnection) × World}
    (hr : (sockTaskConnected e o ⟨l.next, 0, none, none⟩).run w = r) :
    ∃ txid new scratch,
      r.1 = (if LoginAccepted e w then -1 else responseAuthorizationFail,
        ⟨l.next, txid, none, none⟩) ∧
      l.Extends r.2.mem.heap (new ++ scratch) ∧ PerMessage new ∧
      (∀ p ∈ scratch, p.2 = .scratch) ∧ (scratch = [] ↔ ¬ ResponseReceived e w) := by
  have hneg : (-1 : Int) < 0 := by decide
  obtain ⟨hauth, ⟨txid, hconn⟩, scratch, hlogin, hkind, hscratch⟩ :=
    cloudAuthorization_result e o.mac ⟨l.next, 0, none, none⟩ w
  generalize ha : (cloudAuthorization e o.mac ⟨l.next, 0, none, none⟩).run w = a
    at hauth hconn hlogin
  rw [hl] at hlogin
  by_cases hacc : LoginAccepted e w
  · rw [if_pos hacc] at hauth ⊢
    obtain ⟨hwait, new, hloop, hper⟩ := cloudWaitForever_result e o.events
      ⟨l.next, txid, none, none⟩ a.2 rfl
    generalize hf : (cloudWaitForever e o.events ⟨l.next, txid, none, none⟩).run a.2 = f
      at hwait hloop
    have hrun : r = ((-1, ⟨l.next, txid, none, none⟩),
        { f.2 with mem := { f.2.mem with heap := f.2.mem.heap.release l.next } }) := by
      rw [← hr]
      simp only [sockTaskConnected, Prog.run_bind, run_liftMem, ha, hauth, Int.lt_irrefl, if_false,
        hconn, sendDevInfo, Prog.run_pure, hf, hwait, if_pos hneg, run_espushFree]
    rw [hrun]
    exact ⟨txid, new, scratch, rfl, (hlogin.trans hloop).release_oldest, hper, hkind, hscratch⟩
  · rw [if_neg hacc] at hauth ⊢
    have hrun : r = ((responseAuthorizationFail, ⟨l.next, txid, none, none⟩),
        { a.2 with mem := { a.2.mem with heap := a.2.mem.heap.release l.next } }) := by
      rw [← hr]
      simp only [sockTaskConnected, Prog.run_bind, run_liftMem, ha, hauth, if_pos hneg,
        run_espushFree, Prog.run_pure, hconn]
    rw [hrun]
    exact ⟨txid, [], scratch, rfl, hlogin.release_oldest, perMessage_nil, hkind, hscratch⟩

/-- The ways a session ends. `new` is what it leaves behind. -/
inductive SockTaskResult (e : Env) (o : Outside) (w : World) :
    (Int × EspushConnection) × World → Prop
  | unparsed (new : List (Nat × Kind)) (mem : Mem) : ¬ (ReplyRead o ∧ ReplyParses o) →
      w.mem.heap.Extends mem.heap new → (∀ p ∈ new, p.2 = .replyText ∨ p.2 = .jsonTree) →
      (new = [] ↔ (ReplyRead o → ReplyParses o)) →
      SockTaskResult e o w
        ((if RequestMarked o then responseAuthorizationFail else -1, ⟨0, 0, none, none⟩),
          { w with mem := mem })
  | unconnected (mem : Mem) : ReplyRead o → ReplyParses o → (∀ k, ¬ LoginReached e o w k) →
      w.mem.heap.Extends mem.heap [] →
      SockTaskResult e o w ((-1, ⟨0, 0, none, none⟩), { w with mem := mem })
  | connected (k sock : Nat) (txid : UInt8) (new scratch : List (Nat × Kind)) (w' : World) :
      LoginReached e o w k → w.mem.heap.Extends w'.mem.heap (new ++ scratch) → PerMessage new →
      (∀ p ∈ scratch, p.2 = .scratch) →
      (scratch = [] ↔ ¬ ResponseReceived e (w.later (k + 3))) →
      SockTaskResult e o w
        ((if LoginAccepted e (w.later (k + 3)) then -1 else responseAuthorizationFail,
          ⟨sock, txid, none, none⟩), w')

theorem sockTask_result (e : Env) (o : Outside) (w : World) :
    SockTaskResult e o w ((sockTask e o).run w) := by
  have hneg : (-1 : Int) < 0 := by decide
  have hfail : responseAuthorizationFail < 0 := by decide
  by_cases hparsed : ReplyRead o ∧ ReplyParses o
  · obtain ⟨hread, hparse⟩ := hparsed
    obtain ⟨heap, log, hboot, hext, hnext⟩ := run_bootstrap_parsed hread hparse w.mem
    cases hdns : dnsQueryByname o (cString (parsedAddress o).host) with
    | none =>
      have hrun : (sockTask e o).run w =
          ((-1, ⟨0, 0, none, none⟩), { w with mem := ⟨heap, log⟩ }) := by
        simp only [sockTask, Prog.run_bind, run_liftMem, hboot, Int.lt_irrefl, if_false, hdns,
          Prog.run_pure]
      rw [hrun]
      -- without an address there is nothing to connect to
      refine .unconnected _ hread hparse (fun k h => ?_) hext
      obtain ⟨_, _, _, server, hdns', _⟩ := h
      rw [hdns] at hdns'
      cases hdns'
    | some server =>
      have hconn := connectFrom_result e o (server, (parsedAddress o).port) 5 0 (-1) ⟨heap, log⟩
      generalize hc : (connectFrom e o (server, (parsedAddress o).port) 5 0 (-1)).run ⟨heap, log⟩ = c
        at hconn
      cases hconn with
      | failed rc heap' hno hext' =>
        have hrun : (sockTask e o).run w =
            ((-1, ⟨0, 0, none, none⟩), { w with mem := ⟨heap', log⟩ }) := by
          simp only [sockTask, Prog.run_bind, run_liftMem, hboot, Int.lt_irrefl, if_false, hdns,
            createSocketAndConnect, hc, Prog.run_pure]
        rw [hrun]
        refine .unconnected _ hread hparse (fun k h => ?_) (hext.trans hext')
        obtain ⟨_, _, hk, server', hdns', hat⟩ := h
        rw [hdns] at hdns'
        cases hdns'
        refine hno k hk ?_
        rw [hnext]
        exact hat
      | connected k rc heap' hk hat hext' hnext' =>
        have hreached : LoginReached e o w k := by
          refine ⟨hread, hparse, hk, server, hdns, ?_⟩
          rw [← hnext]
          exact hat
        -- k sockets were made and closed before, then the one that connected
        have hlater : (heap'.acquire .socket).next = (w.later (k + 3)).mem.heap.next := by
          show heap'.next + 1 = w.mem.heap.next + (k + 3)
          rw [hnext']
          show heap.next + k + 1 = _
          omega
        have haccepted : LoginAccepted e { w with mem := ⟨heap'.acquire .socket, log⟩ } ↔
            LoginAccepted e (w.later (k + 3)) := loginAccepted_congr hlater rfl rfl
        have hreceived : ResponseReceived e { w with mem := ⟨heap'.acquire .socket, log⟩ } ↔
            ResponseReceived e (w.later (k + 3)) := responseReceived_congr hlater rfl rfl
        generalize hr : (sockTaskConnected e o ⟨heap'.next, 0, none, none⟩).run
          { w with mem := ⟨heap'.acquire .socket, log⟩ } = r
        obtain ⟨txid, new, scratch, hrc, hrest, hper, hkind, hscratch⟩ :=
          sockTaskConnected_result rfl hr
        have hrun : (sockTask e o).run w = (r.1, r.2) := by
          simp only [sockTask, Prog.run_bind, run_liftMem, hboot, Int.lt_irrefl, if_false, hdns,
            createSocketAndConnect, hc, hr]
        simp only [haccepted] at hrc
        rw [hreceived] at hscratch
        rw [hrun, hrc]
        refine .connected k _ txid new scratch _ hreached ?_ hper hkind hscratch
        have h := (hext.trans hext').trans hrest
        simp only [List.append_nil] at h
        exact h
  · obtain ⟨new, hext, hkind, hnew⟩ := bootstrap_heap o o.staleAddr w.mem
    have hrc := bootstrap_rc o o.staleAddr w.mem
    rw [if_neg hparsed] at hrc
    generalize hb : (bootstrap o o.staleAddr).run w.mem = b at hext hrc
    have hlt : b.1.1 < 0 := by
      rw [hrc]
      split
      · exact hfail
      · exact hneg
    have hrun : (sockTask e o).run w = ((b.1.1, ⟨0, 0, none, none⟩), { w with mem := b.2 }) := by
      simp only [sockTask, Prog.run_bind, run_liftMem, hb, if_pos hlt, Prog.run_pure]
    rw [hrun, hrc]
    exact .unparsed new _ hparsed hext hkind hnew

end EspushW60x
