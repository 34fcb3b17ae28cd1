/-!
# A ledger of resources

A ledger records every resource of kinds `κ` that was acquired and not yet
released. Each acquisition gets a number that no earlier one had; a release
names the number. `bad` collects the releases of something that was not live: a
second release, or the release of something never acquired.

Results:
* `drop_cons_of_ne`: a release passes over an entry with another number;
* `bad_release_of_mem`: releasing something live is never recorded in `bad`;
* `Extends`: a ledger with new entries on top of another, and how the operations
  extend it;
* `Holds`: entries that stay live as long as only newer numbers are released.
-/

namespace Lib

/-- Live resources with their numbers, newest first. -/
structure Ledger (κ : Type) where
  next : Nat
  live : List (Nat × κ)
  bad : List Nat
  bounded : ∀ p ∈ live, p.1 < next

namespace Ledger

variable {κ : Type}

/-- The list without the entry numbered `id`. -/
def drop (id : Nat) (live : List (Nat × κ)) : List (Nat × κ) :=
  live.eraseP fun p => p.1 == id

theorem mem_of_mem_drop {id : Nat} {live : List (Nat × κ)} {p : Nat × κ}
    (h : p ∈ drop id live) : p ∈ live :=
  List.mem_of_mem_eraseP h

/-- A ledger with nothing live. -/
def empty : Ledger κ := ⟨0, [], [], fun _ h => absurd h List.not_mem_nil⟩

/-- A request that was refused: it uses up a number and nothing else. -/
def refuse (l : Ledger κ) : Ledger κ :=
  { l with next := l.next + 1, bounded := fun p h => Nat.lt_succ_of_lt (l.bounded p h) }

/-- A request that was granted. Its number is the old `next`. -/
def acquire (l : Ledger κ) (k : κ) : Ledger κ where
  next := l.next + 1
  live := (l.next, k) :: l.live
  bad := l.bad
  bounded := by
    intro p h
    rcases List.mem_cons.mp h with rfl | h
    · exact Nat.lt_succ_self _
    · exact Nat.lt_succ_of_lt (l.bounded p h)

/-- The release of the resource numbered `id`. -/
def release (l : Ledger κ) (id : Nat) : Ledger κ where
  next := l.next
  live := drop id l.live
  bad := if id ∈ l.live.map Prod.fst then l.bad else id :: l.bad
  bounded := fun p h => l.bounded p (mem_of_mem_drop h)

/-- The ledger `n` requests later, with the same live resources. -/
def skip (l : Ledger κ) (n : Nat) : Ledger κ :=
  { l with next := l.next + n, bounded := fun p h => Nat.lt_add_right n (l.bounded p h) }

@[simp] theorem next_acquire (l : Ledger κ) (k : κ) : (l.acquire k).next = l.next + 1 := by rfl
@[simp] theorem live_acquire (l : Ledger κ) (k : κ) :
    (l.acquire k).live = (l.next, k) :: l.live := by rfl

@[simp] theorem next_release (l : Ledger κ) (id : Nat) : (l.release id).next = l.next := by rfl
theorem live_release (l : Ledger κ) (id : Nat) : (l.release id).live = drop id l.live := by rfl

/-- The newest entry is the one released. -/
@[simp] theorem drop_cons_self (id : Nat) (k : κ) (live : List (Nat × κ)) :
    drop id ((id, k) :: live) = live := by
  simp [drop]

/-- A release passes over an entry with another number. -/
theorem drop_cons_of_ne {id n : Nat} (h : n ≠ id) (k : κ) (live : List (Nat × κ)) :
    drop id ((n, k) :: live) = (n, k) :: drop id live := by
  simp [drop, h]

/-- Releasing something live is never recorded in `bad`. -/
theorem bad_release_of_mem {l : Ledger κ} {id : Nat} (h : id ∈ l.live.map Prod.fst) :
    (l.release id).bad = l.bad :=
  if_pos h

/-! ## Growth -/

/-- `l'` has the entries `new` on top of those of `l`, numbered after them, and
nothing was released that was not live. -/
structure Extends (l l' : Ledger κ) (new : List (Nat × κ)) : Prop where
  live : l'.live = new ++ l.live
  bad : l'.bad = l.bad
  next : l.next ≤ l'.next
  fresh : ∀ p ∈ new, l.next ≤ p.1

theorem Extends.refl (l : Ledger κ) : l.Extends l [] :=
  ⟨rfl, rfl, Nat.le_refl _, List.forall_mem_nil _⟩

theorem Extends.trans {a b c : Ledger κ} {xs ys : List (Nat × κ)} (hab : a.Extends b xs)
    (hbc : b.Extends c ys) : a.Extends c (ys ++ xs) where
  live := by rw [hbc.live, hab.live, List.append_assoc]
  bad := hbc.bad.trans hab.bad
  next := Nat.le_trans hab.next hbc.next
  fresh := by
    intro p hp
    rcases List.mem_append.mp hp with hp | hp
    · exact Nat.le_trans hab.next (hbc.fresh p hp)
    · exact hab.fresh p hp

theorem Extends.acquire {l l' : Ledger κ} {new : List (Nat × κ)} (h : l.Extends l' new) (k : κ) :
    l.Extends (l'.acquire k) ((l'.next, k) :: new) where
  live := by rw [live_acquire, h.live, List.cons_append]
  bad := h.bad
  next := Nat.le_succ_of_le h.next
  fresh := by
    intro p hp
    rcases List.mem_cons.mp hp with rfl | hp
    · exact h.next
    · exact h.fresh p hp

theorem Extends.refuse {l l' : Ledger κ} {new : List (Nat × κ)} (h : l.Extends l' new) :
    l.Extends l'.refuse new :=
  ⟨h.live, h.bad, Nat.le_succ_of_le h.next, h.fresh⟩

theorem drop_append_of_ne {id : Nat} {xs : List (Nat × κ)} (h : ∀ p ∈ xs, p.1 ≠ id)
    (live : List (Nat × κ)) : drop id (xs ++ live) = xs ++ drop id live := by
  induction xs with
  | nil => rfl
  | cons x xs ih =>
    obtain ⟨n, k⟩ := x
    rw [List.cons_append, drop_cons_of_ne (h _ List.mem_cons_self),
      ih fun p hp => h p (List.mem_cons_of_mem _ hp), List.cons_append]

/-- An entry below others is released. -/
theorem Extends.release_below {l l' : Ledger κ} {xs ys : List (Nat × κ)} {id : Nat} {k : κ}
    (h : l.Extends l' (xs ++ (id, k) :: ys)) (hne : ∀ p ∈ xs, p.1 ≠ id) :
    l.Extends (l'.release id) (xs ++ ys) where
  live := by
    rw [live_release, h.live, List.append_assoc, drop_append_of_ne hne, List.cons_append,
      drop_cons_self, List.append_assoc]
  bad := by
    have hmem : id ∈ l'.live.map Prod.fst := by
      rw [h.live]
      exact List.mem_map_of_mem (f := Prod.fst) (a := (id, k))
        (List.mem_append_left _ (List.mem_append_right _ List.mem_cons_self))
    rw [bad_release_of_mem hmem, h.bad]
  next := h.next
  fresh := by
    intro p hp
    refine h.fresh p ?_
    rcases List.mem_append.mp hp with hp | hp
    · exact List.mem_append_left _ hp
    · exact List.mem_append_right _ (List.mem_cons_of_mem _ hp)

/-- The newest entry is released. -/
theorem Extends.release {l l' : Ledger κ} {new : List (Nat × κ)} {id : Nat} {k : κ}
    (h : l.Extends l' ((id, k) :: new)) : l.Extends (l'.release id) new := by
  have h' : l.Extends l' ([] ++ (id, k) :: new) := h
  exact h'.release_below (List.forall_mem_nil _)

/-- What was acquired first is released while everything acquired since stays. -/
theorem Extends.release_oldest {a l' : Ledger κ} {k : κ} {xs : List (Nat × κ)}
    (h : (a.acquire k).Extends l' xs) : a.Extends (l'.release a.next) xs := by
  have hall : a.Extends l' (xs ++ (a.next, k) :: []) := ((Extends.refl a).acquire k).trans h
  have h' := hall.release_below fun p hp => Nat.ne_of_gt (h.fresh p hp)
  rwa [List.append_nil] at h'

/-- The entries are the old ones exactly when nothing is on top of them. -/
theorem Extends.live_eq_iff {l l' : Ledger κ} {new : List (Nat × κ)} (h : l.Extends l' new) :
    l'.live = l.live ↔ new = [] := by
  rw [h.live]
  exact List.append_left_eq_self

/-- The entries of some kinds are the old ones exactly when none on top of them is of
these kinds. -/
theorem Extends.filter_live_eq_iff {l l' : Ledger κ} {new : List (Nat × κ)} (h : l.Extends l' new)
    (p : κ → Bool) :
    (l'.live.filter fun x => p x.2) = (l.live.filter fun x => p x.2) ↔ ∀ x ∈ new, p x.2 = false := by
  rw [h.live, List.filter_append, List.append_left_eq_self, List.filter_eq_nil_iff]
  simp only [Bool.not_eq_true]

/-! ## Entries that stay -/

/-- The entries `held` are live and numbered below `n`, and `n` is not above the next
number. -/
structure Holds (l : Ledger κ) (n : Nat) (held : List (Nat × κ)) : Prop where
  live : ∀ p ∈ held, p ∈ l.live
  below : ∀ p ∈ held, p.1 < n
  next : n ≤ l.next

section Holds

variable {l l' : Ledger κ} {n : Nat} {held : List (Nat × κ)}

theorem Holds.acquire (h : l.Holds n held) (k : κ) : (l.acquire k).Holds n held :=
  ⟨fun p hp => List.mem_cons_of_mem _ (h.live p hp), h.below, Nat.le_succ_of_le h.next⟩

theorem Holds.refuse (h : l.Holds n held) : l.refuse.Holds n held :=
  ⟨h.live, h.below, Nat.le_succ_of_le h.next⟩

/-- A newer number is released. -/
theorem Holds.release (h : l.Holds n held) {id : Nat} (hid : n ≤ id) :
    (l.release id).Holds n held := by
  refine ⟨fun p hp => ?_, h.below, h.next⟩
  have hne : ¬ (p.1 == id) = true := by
    rw [beq_iff_eq]
    exact Nat.ne_of_lt (Nat.lt_of_lt_of_le (h.below p hp) hid)
  exact (List.mem_eraseP_of_neg (p := fun q : Nat × κ => q.1 == id) hne).mpr (h.live p hp)

end Holds

end Ledger

end Lib
