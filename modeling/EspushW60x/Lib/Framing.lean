/-!
# Length-prefixed frames in a stream

A length-prefixed format determines the whole size of a frame from its first
`header` symbols. A stream of complete frames then splits in one way only:
frames form a prefix code.

Results:
* `IsFrame.cancel`: two frames at the head of one stream are equal;
* `Complete.right`: a complete stream stays complete when complete frames are
  taken from its front;
* `exists_cut`: a prefix of a stream of frames ends inside at most one frame;
* `next_frame`: a receiver that cuts frames off the front of what it received
  finds the next frame of the stream as soon as it is complete;
* `le_completeIn_iff`: `completeIn fs t`, the number of frames that lie wholly
  in the first `t` symbols, against the sizes of the frames.
-/

namespace Lib

/-- A list cut before and after one of its elements. -/
theorem take_succ_of_drop {α : Type} {l t : List α} {a : α} {k : Nat} (h : l.drop k = a :: t) :
    l.take (k + 1) = l.take k ++ [a] ∧ l.drop (k + 1) = t ∧ k < l.length := by
  have hk : k < l.length := by
    rcases Nat.lt_or_ge k l.length with hk | hk
    · exact hk
    · rw [List.drop_of_length_le hk] at h
      cases h
  have hget : l[k]? = some a := by
    have hdrop : (l.drop k)[0]? = l[k + 0]? := List.getElem?_drop
    rw [h] at hdrop
    exact hdrop.symm
  refine ⟨?_, ?_, hk⟩
  · rw [List.take_add_one, hget]
    rfl
  · rw [← List.drop_drop (i := 1), h]
    rfl

/-- A format in which the first `header` symbols determine the size of a frame. -/
structure LengthFormat (α : Type) where
  header : Nat
  size : List α → Nat
  header_pos : 0 < header
  size_append : ∀ s t, header ≤ s.length → size (s ++ t) = size s

namespace LengthFormat

variable {α : Type} (F : LengthFormat α)

/-- `f` is one frame: its header is there and gives exactly its length. -/
def IsFrame (f : List α) : Prop := F.header ≤ f.length ∧ F.size f = f.length

instance (f : List α) : Decidable (F.IsFrame f) := inferInstanceAs (Decidable (_ ∧ _))

/-- `s` is a sequence of complete frames. -/
def Complete (s : List α) : Prop := ∃ fs : List (List α), (∀ f ∈ fs, F.IsFrame f) ∧ s = fs.flatten

variable {F}

theorem IsFrame.length_pos {f : List α} (h : F.IsFrame f) : 0 < f.length :=
  Nat.lt_of_lt_of_le F.header_pos h.1

theorem IsFrame.ne_nil {f : List α} (h : F.IsFrame f) : f ≠ [] :=
  List.ne_nil_of_length_pos h.length_pos

/-- The size read at the head of a stream that starts with the frame `f`. -/
theorem IsFrame.size_append {f : List α} (h : F.IsFrame f) (s : List α) :
    F.size (f ++ s) = f.length := by
  rw [F.size_append f s h.1, h.2]

/-- Frames are a prefix code: one stream starts with at most one frame. -/
theorem IsFrame.cancel {f g s t : List α} (hf : F.IsFrame f) (hg : F.IsFrame g)
    (h : f ++ s = g ++ t) : f = g ∧ s = t := by
  have hlen : f.length = g.length := by
    rw [← hf.size_append s, h, hg.size_append t]
  exact List.append_inj h hlen

variable (F) in
/-- The stream starts with a header and with as many symbols as it asks for. -/
def HasFrame (s : List α) : Prop := F.header ≤ s.length ∧ F.size s ≤ s.length

instance (s : List α) : Decidable (F.HasFrame s) := inferInstanceAs (Decidable (_ ∧ _))

/-- The symbols a header asks for are a frame when they include the header. -/
theorem HasFrame.isFrame_take {s : List α} (h : F.HasFrame s) (hsize : F.header ≤ F.size s) :
    F.IsFrame (s.take (F.size s)) := by
  have hlen : (s.take (F.size s)).length = F.size s := by
    rw [List.length_take, Nat.min_eq_left h.2]
  refine ⟨by rw [hlen]; exact hsize, ?_⟩
  have happ := F.size_append (s.take (F.size s)) (s.drop (F.size s)) (by rw [hlen]; exact hsize)
  rw [List.take_append_drop] at happ
  rw [hlen, ← happ]

/-- A prefix of a stream that starts with the frame `f` has a frame exactly when
it is as long as `f`. -/
theorem IsFrame.hasFrame_iff {f s t : List α} (h : F.IsFrame f) (hs : s <+: f ++ t) :
    F.HasFrame s ↔ f.length ≤ s.length := by
  obtain ⟨u, hu⟩ := hs
  constructor
  · rintro ⟨hhead, hsize⟩
    rw [← h.size_append t, ← hu, F.size_append s u hhead]
    exact hsize
  · intro hlen
    have hhead : F.header ≤ s.length := Nat.le_trans h.1 hlen
    refine ⟨hhead, ?_⟩
    rw [← F.size_append s u hhead, hu, h.size_append t]
    exact hlen

theorem Complete.nil : F.Complete [] := ⟨[], by simp, rfl⟩

theorem IsFrame.complete {f : List α} (h : F.IsFrame f) : F.Complete f :=
  ⟨[f], by simpa using h, by simp⟩

theorem Complete.append {s t : List α} (hs : F.Complete s) (ht : F.Complete t) :
    F.Complete (s ++ t) := by
  obtain ⟨fs, hfs, rfl⟩ := hs
  obtain ⟨gs, hgs, rfl⟩ := ht
  refine ⟨fs ++ gs, ?_, by simp⟩
  intro f hf
  rcases List.mem_append.mp hf with hf | hf
  · exact hfs f hf
  · exact hgs f hf

/-- A complete stream stays complete when frames are taken from its front. -/
theorem complete_of_flatten_append {fs : List (List α)} {t : List α}
    (hfs : ∀ f ∈ fs, F.IsFrame f) (h : F.Complete (fs.flatten ++ t)) : F.Complete t := by
  induction fs with
  | nil => simpa using h
  | cons f fs ih =>
    refine ih (fun g hg => hfs g (List.mem_cons_of_mem _ hg)) ?_
    obtain ⟨gs, hgs, he⟩ := h
    have hf : F.IsFrame f := hfs f List.mem_cons_self
    cases gs with
    | nil => exact absurd he (by simp [hf.ne_nil])
    | cons g gs =>
      rw [List.flatten_cons, List.flatten_cons, List.append_assoc] at he
      have hrest := (hf.cancel (hgs g List.mem_cons_self) he).2
      exact ⟨gs, fun x hx => hgs x (List.mem_cons_of_mem _ hx), hrest⟩

theorem Complete.right {s t : List α} (h : F.Complete (s ++ t)) (hs : F.Complete s) :
    F.Complete t := by
  obtain ⟨fs, hfs, rfl⟩ := hs
  exact complete_of_flatten_append hfs h

/-- A proper, non-empty prefix of a frame is not a sequence of frames. -/
theorem IsFrame.not_complete_of_append {s t : List α} (h : F.IsFrame (s ++ t)) (hs : s ≠ [])
    (ht : t ≠ []) : ¬ F.Complete s := by
  rintro ⟨fs, hfs, rfl⟩
  cases fs with
  | nil => exact hs rfl
  | cons f fs =>
    have hf : F.IsFrame f := hfs f List.mem_cons_self
    have he : ((f :: fs).flatten ++ t) ++ [] = f ++ (fs.flatten ++ t) := by simp
    have hlen := congrArg List.length (h.cancel hf he).1
    simp only [List.flatten_cons, List.length_append] at hlen
    have := List.length_pos_iff.mpr ht
    omega

/-! ## Cutting frames off the front -/

/-- A prefix of a stream of frames ends inside at most one of them: it is the first
`k` frames and less than one frame more. -/
theorem exists_cut {fs : List (List α)} {s t : List α} (h : fs.flatten = s ++ t) :
    ∃ k p, k ≤ fs.length ∧ s = (fs.take k).flatten ++ p ∧ p ++ t = (fs.drop k).flatten ∧
      (p = [] ∨ ∃ f ∈ fs, p.length < f.length) := by
  induction fs generalizing s with
  | nil =>
    obtain ⟨rfl, rfl⟩ := List.append_eq_nil_iff.mp h.symm
    exact ⟨0, [], Nat.le_refl 0, rfl, rfl, .inl rfl⟩
  | cons f fs ih =>
    rw [List.flatten_cons] at h
    rcases Nat.lt_or_ge s.length f.length with hlt | hge
    · refine ⟨0, s, Nat.zero_le _, rfl, ?_, .inr ⟨f, List.mem_cons_self, hlt⟩⟩
      rw [List.drop_zero, List.flatten_cons, h]
    · obtain ⟨u, rfl⟩ : f <+: s := List.prefix_of_prefix_length_le ⟨_, h⟩ ⟨t, rfl⟩ hge
      rw [List.append_assoc] at h
      obtain ⟨k, p, hk, rfl, hrest, hp⟩ := ih (List.append_cancel_left h)
      refine ⟨k + 1, p, Nat.succ_le_succ hk, ?_, hrest, ?_⟩
      · rw [List.take_succ_cons, List.flatten_cons, List.append_assoc]
      · rcases hp with hp | ⟨g, hg, hlt⟩
        · exact .inl hp
        · exact .inr ⟨g, List.mem_cons_of_mem _ hg, hlt⟩

/-! ## Frames complete in a prefix -/

/-- The number of frames of `fs` that lie wholly in the first `t` symbols. -/
def completeIn : List (List α) → Nat → Nat
  | [], _ => 0
  | f :: fs, t => if f.length ≤ t then completeIn fs (t - f.length) + 1 else 0

theorem completeIn_le_length (fs : List (List α)) (t : Nat) : completeIn fs t ≤ fs.length := by
  induction fs generalizing t with
  | nil => exact Nat.le_refl 0
  | cons f fs ih =>
    unfold completeIn
    split
    · exact Nat.succ_le_succ (ih _)
    · exact Nat.zero_le _

/-- `k` frames are complete in the first `t` symbols when their sizes fit in `t`. -/
theorem le_completeIn_iff {fs : List (List α)} {t k : Nat} (hk : k ≤ fs.length) :
    k ≤ completeIn fs t ↔ (fs.take k).flatten.length ≤ t := by
  induction fs generalizing t k with
  | nil =>
    obtain rfl : k = 0 := Nat.le_zero.mp hk
    simp
  | cons f fs ih =>
    cases k with
    | zero => simp
    | succ k =>
      have hk' : k ≤ fs.length := Nat.le_of_succ_le_succ hk
      simp only [completeIn, List.take_succ_cons, List.flatten_cons, List.length_append]
      split
      next hf =>
        rw [Nat.add_le_add_iff_right, ih hk']
        omega
      next hf => omega

theorem completeIn_mono {fs : List (List α)} {t u : Nat} (h : t ≤ u) :
    completeIn fs t ≤ completeIn fs u := by
  have hlen := completeIn_le_length fs t
  rw [le_completeIn_iff hlen]
  exact Nat.le_trans ((le_completeIn_iff hlen).mp (Nat.le_refl _)) h

theorem completeIn_flatten_length (fs : List (List α)) :
    completeIn fs fs.flatten.length = fs.length := by
  refine Nat.le_antisymm (completeIn_le_length _ _) ?_
  exact (le_completeIn_iff (Nat.le_refl _)).mpr (Nat.le_of_eq (by rw [List.take_length]))

theorem completeIn_zero {fs : List (List α)} (hfs : ∀ f ∈ fs, F.IsFrame f) :
    completeIn fs 0 = 0 := by
  cases fs with
  | nil => rfl
  | cons f fs =>
    have := (hfs f List.mem_cons_self).length_pos
    unfold completeIn
    rw [if_neg (by omega)]

/-- The stream `fs` after its first `k` frames were cut off and `c` is what was
received behind them: `c` starts with a frame exactly when more than `k` frames
are complete, and that frame is the next one of `fs`. -/
theorem next_frame {fs : List (List α)} {k : Nat} {c : List α} (hfs : ∀ f ∈ fs, F.IsFrame f)
    (hk : k ≤ fs.length) (h : (fs.take k).flatten ++ c <+: fs.flatten) :
    (F.HasFrame c ↔ k < completeIn fs ((fs.take k).flatten ++ c).length) ∧
      (F.HasFrame c → fs.take (k + 1) = fs.take k ++ [c.take (F.size c)]) := by
  have hc : c <+: (fs.drop k).flatten := by
    have hsplit : fs.flatten = (fs.take k).flatten ++ (fs.drop k).flatten := by
      rw [← List.flatten_append, List.take_append_drop]
    rw [hsplit] at h
    exact (List.prefix_append_right_inj _).mp h
  cases hd : fs.drop k with
  | nil =>
    -- every frame was cut off, so nothing is left
    rw [hd] at hc
    have hnil : c = [] := List.prefix_nil.mp hc
    have hlen : fs.length ≤ k := List.drop_eq_nil_iff.mp hd
    have hno : ¬ F.HasFrame c := fun hf => by
      have h0 := hf.1
      have := F.header_pos
      rw [hnil, List.length_nil] at h0
      omega
    have hle := completeIn_le_length fs ((fs.take k).flatten ++ c).length
    exact ⟨iff_of_false hno (by omega), fun hf => absurd hf hno⟩
  | cons f rest =>
    have hf : F.IsFrame f := hfs f (List.mem_of_mem_drop (hd ▸ List.mem_cons_self))
    obtain ⟨htake, _, hlt⟩ := take_succ_of_drop hd
    rw [hd, List.flatten_cons] at hc
    have hiff := hf.hasFrame_iff hc
    refine ⟨?_, ?_⟩
    · have hsum : (fs.take (k + 1)).flatten.length = (fs.take k).flatten.length + f.length := by
        rw [htake, List.flatten_append, List.length_append]
        simp
      rw [hiff, ← Nat.succ_le_iff, le_completeIn_iff hlt, hsum, List.length_append]
      omega
    · intro hfr
      obtain ⟨u, hu⟩ := hc
      have hle := hiff.mp hfr
      obtain ⟨v, hv⟩ : f <+: c := List.prefix_of_prefix_length_le ⟨_, rfl⟩ ⟨u, hu⟩ hle
      have hsize : F.size c = f.length := by rw [← hv, hf.size_append]
      rw [htake, hsize, ← hv, List.take_left' rfl]

end LengthFormat

end Lib
