import EspushW60x.SockTask

/-!
# When to wait for an hour

`sock_task` returns `response_authorization_fail` to say that the server refused the
device; `espush_task` then waits for an hour and not for a second. It returns the
same value after several failures that have nothing to do with a refusal.

Results:
* `sockTask_rc`: when `sock_task` returns `response_authorization_fail`;
* `retry_classification`: this is exactly for refused devices, exactly when the reply
  fits and none of the misfiled failures happens.
-/

namespace EspushW60x

open Lib

/-! ## Conditions -/

/-- A complete response arrives with a code other than the one for success. -/
def LoginRefused (e : Env) (w : World) : Prop :=
  LoginSent e w ∧ ResponseArrives e (w.later 3) ∧ responseStored e (w.later 3) = true ∧
    byteAt (recvBody (w.later 3)).2.1 0 ≠ authSuccess

/-- The login frame is not made or not sent, no complete and well-formed response
arrives, or there is no memory for its body. -/
def LoginFails (e : Env) (w : World) : Prop :=
  ¬ LoginSent e w ∨ ¬ ResponseArrives e (w.later 3) ∨
    (responseStored e (w.later 3) = false ∧ e.nullByte ≠ authSuccess)

/-- The web service answers with a status other than 200. -/
def StatusRefuses (o : Outside) : Prop := o.sessionCreated = true ∧ 0 < o.get ∧ o.get ≠ 200

/-- There is no answer with a status, or an empty one with the status 200. -/
def RequestFails (o : Outside) : Prop :=
  o.sessionCreated = true ∧ (o.get < 0 ∨ (o.get = 200 ∧ o.response ≤ 0))

/-- The server refuses the device. -/
def DeviceRefused (e : Env) (o : Outside) (w : World) : Prop :=
  StatusRefuses o ∨ ∃ k, LoginReached e o w k ∧ LoginRefused e (w.later (k + 3))

/-- The failures that are taken for a refusal. -/
def Misfiled (e : Env) (o : Outside) (w : World) : Prop :=
  RequestFails o ∨ ∃ k, LoginReached e o w k ∧ LoginFails e (w.later (k + 3))

/-! ## The return code -/

namespace RetryLemmas

variable {e : Env} {o : Outside} {w : World}

theorem requestMarked_iff : RequestMarked o ↔ StatusRefuses o ∨ RequestFails o := by
  constructor
  · rintro ⟨hs, hget, hor⟩
    by_cases hpos : 0 < o.get ∧ o.get ≠ 200
    · exact .inl ⟨hs, hpos⟩
    · refine .inr ⟨hs, ?_⟩
      omega
  · rintro (⟨hs, hpos, hne⟩ | ⟨hs, hneg | ⟨hget, hresp⟩⟩)
    · exact ⟨hs, by omega, .inl hne⟩
    · exact ⟨hs, by omega, .inl (by omega)⟩
    · exact ⟨hs, by omega, .inr hresp⟩

theorem not_loginAccepted_iff : ¬ LoginAccepted e w ↔ LoginRefused e w ∨ LoginFails e w := by
  by_cases hsent : LoginSent e w
  · by_cases harrives : ResponseArrives e (w.later 3)
    · have hacc : LoginAccepted e w ↔ responseCode e (w.later 3) = authSuccess := by
        rw [LoginAccepted, and_iff_right hsent, ResponseAccepts, and_iff_right harrives]
      cases hstored : responseStored e (w.later 3) with
      | false =>
        have hcode : responseCode e (w.later 3) = e.nullByte :=
          if_neg (by rw [hstored]; decide)
        rw [hacc, hcode]
        constructor
        · exact fun h => .inr (.inr (.inr ⟨hstored, h⟩))
        · rintro (h | h | h | h)
          · have hyes := h.2.2.1
            rw [hstored] at hyes
            cases hyes
          · exact absurd hsent h
          · exact absurd harrives h
          · exact h.2
      | true =>
        have hcode : responseCode e (w.later 3) = byteAt (recvBody (w.later 3)).2.1 0 :=
          if_pos hstored
        rw [hacc, hcode]
        constructor
        · exact fun h => .inl ⟨hsent, harrives, hstored, h⟩
        · rintro (h | h | h | h)
          · exact h.2.2.2
          · exact absurd hsent h
          · exact absurd harrives h
          · have hno := h.1
            rw [hstored] at hno
            cases hno
    · exact iff_of_true (fun h => harrives h.2.1) (.inr (.inr (.inl harrives)))
  · exact iff_of_true (fun h => hsent h.1) (.inr (.inl hsent))

theorem not_loginFails (h : LoginRefused e w) : ¬ LoginFails e w := by
  rintro (hf | hf | hf)
  · exact hf h.1
  · exact hf h.2.1
  · have hno := hf.1
    rw [h.2.2.1] at hno
    cases hno

/-- No session is both refused and misfiled. -/
theorem not_misfiled (h : DeviceRefused e o w) : ¬ Misfiled e o w := by
  rcases h with ⟨_, hpos, hne⟩ | ⟨k, hreached, hrefused⟩
  · rintro (⟨_, hf⟩ | ⟨k, hreached, _⟩)
    · omega
    · exact hne hreached.1.2.1
  · rintro (⟨_, hf⟩ | ⟨k', hreached', hfails⟩)
    · have hget := hreached.1.2.1
      have hresp := hreached.1.2.2
      omega
    · obtain rfl := hreached.unique hreached'
      exact not_loginFails hrefused hfails

end RetryLemmas

open RetryLemmas

theorem sockTask_rc (e : Env) (o : Outside) (w : World) :
    ((sockTask e o).run w).1.1 = responseAuthorizationFail ↔
      RequestMarked o ∨ ∃ k, LoginReached e o w k ∧ ¬ LoginAccepted e (w.later (k + 3)) := by
  have hother : (-1 : Int) ≠ responseAuthorizationFail := by decide
  have hmark : ReplyRead o → ¬ RequestMarked o := by
    rintro ⟨_, hget, hresp⟩ ⟨_, _, hor⟩
    omega
  have h := sockTask_result e o w
  generalize (sockTask e o).run w = r at h
  cases h with
  | unparsed _ _ hno =>
    have hlogin : ¬ ∃ k, LoginReached e o w k ∧ ¬ LoginAccepted e (w.later (k + 3)) :=
      fun ⟨_, hreached, _⟩ => hno ⟨hreached.1, hreached.2.1⟩
    rw [or_iff_left hlogin]
    by_cases hm : RequestMarked o
    · exact iff_of_true (if_pos hm) hm
    · rw [if_neg hm]
      exact iff_of_false hother hm
  | unconnected _ hread _ hno =>
    refine iff_of_false hother ?_
    rintro (hm | ⟨k, hreached, _⟩)
    · exact hmark hread hm
    · exact hno k hreached
  | connected k _ _ _ _ _ hreached =>
    rw [or_iff_right (hmark hreached.1),
      ← hreached.exists_iff (P := fun k => ¬ LoginAccepted e (w.later (k + 3)))]
    by_cases hacc : LoginAccepted e (w.later (k + 3))
    · rw [if_pos hacc]
      exact iff_of_false hother (not_not_intro hacc)
    · exact iff_of_true (if_neg hacc) hacc

/-- The modelled session returns `response_authorization_fail` exactly for refused devices,
exactly when no other failure is taken for a refusal. -/
theorem sockTask_refused_iff (e : Env) (o : Outside) (w : World) :
    (((sockTask e o).run w).1.1 = responseAuthorizationFail ↔ DeviceRefused e o w) ↔
      ¬ Misfiled e o w := by
  have hrc : ((sockTask e o).run w).1.1 = responseAuthorizationFail ↔
      DeviceRefused e o w ∨ Misfiled e o w := by
    rw [sockTask_rc, requestMarked_iff]
    simp only [not_loginAccepted_iff, and_or_left, exists_or, DeviceRefused, Misfiled]
    constructor
    · rintro ((h | h) | h | h)
      · exact .inl (.inl h)
      · exact .inr (.inl h)
      · exact .inl (.inr h)
      · exact .inr (.inr h)
    · rintro ((h | h) | h | h)
      · exact .inl (.inl h)
      · exact .inr (.inl h)
      · exact .inl (.inr h)
      · exact .inr (.inr h)
  rw [hrc]
  constructor
  · exact fun h hmis => not_misfiled (h.mp (.inr hmis)) hmis
  · exact fun hmis => or_iff_left hmis

/-- `sock_task` returns `response_authorization_fail` exactly for refused devices,
exactly when the address in the reply fits and no other failure is taken for a refusal. -/
theorem retry_classification (e : Env) (o : Outside) (w : World) :
    (∀ r, SockTaskMay e o w r → (r.1.1 = responseAuthorizationFail ↔ DeviceRefused e o w)) ↔
      (ReplyRead o → ReplyParses o → AddressFits o) ∧ ¬ Misfiled e o w := by
  rw [← bootstrapInside_iff o w, ← sockTask_refused_iff e o w]
  refine MayEnd.forall_iff ?_
  -- a session that ends in any way may also end with the wrong code
  have hother : (0 : Int) ≠ responseAuthorizationFail := by decide
  by_cases href : DeviceRefused e o w
  · exact ⟨((0, ⟨0, 0, none, none⟩), w), fun h => hother (h.mpr href)⟩
  · exact ⟨((responseAuthorizationFail, ⟨0, 0, none, none⟩), w), fun h => href (h.mp rfl)⟩

/-- The web service cannot be reached. -/
def unreachable : Outside where
  sessionCreated := true
  get := -1
  response := 0
  json := none
  dns := fun _ _ => none
  connect := fun _ _ => -1
  events := []
  mac := fun _ => 0
  staleAddr := ⟨[], 0, 0⟩

/-- A server that takes the connection. Nothing ever arrives on it. -/
def silentServer : Outside where
  sessionCreated := true
  get := 200
  response := 1
  json := some fun _ => some ⟨some [], 0⟩
  dns := fun _ _ => some 0
  connect := fun _ _ => 0
  events := []
  mac := fun _ => 0
  staleAddr := ⟨List.replicate maxHostString 0, 0, 0⟩

/-- Neither server refused the device. -/
theorem unreachable_waits_an_hour :
    (¬ ∀ r, SockTaskMay Env.benign unreachable (World.start []) r →
      (r.1.1 = responseAuthorizationFail ↔
        DeviceRefused Env.benign unreachable (World.start []))) ∧
    ¬ ∀ r, SockTaskMay Env.benign silentServer (World.start []) r →
      (r.1.1 = responseAuthorizationFail ↔
        DeviceRefused Env.benign silentServer (World.start [])) := by
  constructor
  · intro h
    rcases (h _ .self).mp (by decide +kernel) with h | ⟨_, hreached, _⟩
    · exact absurd h.2.1 (by decide)
    · exact absurd hreached.1.2.1 (by decide)
  · intro h
    rcases (h _ .self).mp (by decide +kernel) with h | ⟨_, _, hrefused⟩
    · exact absurd h.2.2 (by decide)
    · exact absurd (show (0 : Int) = 4 from hrefused.2.1.1.1) (by decide)

end EspushW60x
