/-!
# Ordered dictionaries

A list of bindings with different keys, newest last. What a key is bound to does not
depend on the order; what the list looks like when it is written out does.

Results:
* `get_eq_some_iff`: a lookup finds the binding of the key;
* `get_erase`, `get_add`: lookups after a change.
-/

namespace Lib

structure Dict (κ β : Type) where
  entries : List (κ × β)
  nodup : (entries.map Prod.fst).Nodup

namespace Dict

variable {κ β : Type}

def empty : Dict κ β := ⟨[], List.nodup_nil⟩

variable [DecidableEq κ]

def get (d : Dict κ β) (k : κ) : Option β := d.entries.lookup k

/-- The bindings without that of `k`. -/
def erase (d : Dict κ β) (k : κ) : Dict κ β where
  entries := d.entries.eraseP fun x => x.1 = k
  nodup := d.nodup.sublist (List.eraseP_sublist.map Prod.fst)

/-- A new binding at the end. -/
def add (d : Dict κ β) (k : κ) (v : β) (h : d.get k = none) : Dict κ β where
  entries := d.entries ++ [(k, v)]
  nodup := by
    rw [List.map_append, List.nodup_append]
    refine ⟨d.nodup, List.pairwise_singleton _ _, ?_⟩
    intro a ha b hb
    obtain ⟨x, hx, rfl⟩ := List.mem_map.mp ha
    obtain rfl : b = k := List.mem_singleton.mp hb
    exact (bne_iff_ne.mp (List.lookup_eq_none_iff.mp h x hx)).symm

theorem get_eq_none_iff {d : Dict κ β} {k : κ} : d.get k = none ↔ ∀ x ∈ d.entries, x.1 ≠ k := by
  rw [get, List.lookup_eq_none_iff]
  constructor
  · exact fun h x hx => (bne_iff_ne.mp (h x hx)).symm
  · exact fun h x hx => bne_iff_ne.mpr (h x hx).symm

/-- The place of a binding in the list. -/
theorem split_of_get {d : Dict κ β} {k : κ} {v : β} (h : d.get k = some v) :
    ∃ pre post, d.entries = pre ++ (k, v) :: post ∧ ∀ x ∈ pre, x.1 ≠ k := by
  obtain ⟨pre, post, hsplit, hpre⟩ := List.lookup_eq_some_iff.mp h
  refine ⟨pre, post, hsplit, fun x hx he => ?_⟩
  have hne := hpre x hx
  rw [he] at hne
  simp at hne

theorem get_eq_some_iff {d : Dict κ β} {k : κ} {v : β} : d.get k = some v ↔ (k, v) ∈ d.entries := by
  constructor
  · intro h
    obtain ⟨pre, post, hsplit, _⟩ := split_of_get h
    rw [hsplit]
    exact List.mem_append_right pre List.mem_cons_self
  · intro h
    obtain ⟨pre, post, hsplit⟩ := List.append_of_mem h
    have hnodup := d.nodup
    rw [hsplit, List.map_append, List.map_cons, List.nodup_append] at hnodup
    refine List.lookup_eq_some_iff.mpr ⟨pre, post, hsplit, fun x hx => ?_⟩
    have hne := hnodup.2.2 x.1 (List.mem_map_of_mem hx) k List.mem_cons_self
    simp [Ne.symm hne]

/-- The list without a binding. -/
theorem entries_erase {d : Dict κ β} {k : κ} {v : β} {pre post : List (κ × β)}
    (hsplit : d.entries = pre ++ (k, v) :: post) (hpre : ∀ x ∈ pre, x.1 ≠ k) :
    (d.erase k).entries = pre ++ post := by
  show d.entries.eraseP _ = _
  rw [hsplit, List.eraseP_append_right _ fun x hx => by simpa using hpre x hx,
    List.eraseP_cons_of_pos (by simp)]

theorem erase_of_get_none {d : Dict κ β} {k : κ} (h : d.get k = none) :
    (d.erase k).entries = d.entries :=
  List.eraseP_of_forall_not fun x hx => by simpa using get_eq_none_iff.mp h x hx

theorem get_erase_self (d : Dict κ β) (k : κ) : (d.erase k).get k = none := by
  refine get_eq_none_iff.mpr ?_
  cases h : d.get k with
  | none =>
    rw [erase_of_get_none h]
    exact get_eq_none_iff.mp h
  | some v =>
    obtain ⟨pre, post, hsplit, hpre⟩ := split_of_get h
    have hnodup := d.nodup
    rw [hsplit, List.map_append, List.map_cons, List.nodup_append, List.nodup_cons] at hnodup
    rw [entries_erase hsplit hpre]
    intro x hx he
    rcases List.mem_append.mp hx with hx | hx
    · exact hpre x hx he
    · exact hnodup.2.1.1 (List.mem_map.mpr ⟨x, hx, he⟩)

theorem get_erase_ne (d : Dict κ β) {k k' : κ} (h : k' ≠ k) : (d.erase k).get k' = d.get k' := by
  have hmem : ∀ v, (k', v) ∈ (d.erase k).entries ↔ (k', v) ∈ d.entries := by
    intro v
    exact List.mem_eraseP_of_neg (by simpa using h)
  cases hd : d.get k' with
  | some v => exact get_eq_some_iff.mpr ((hmem v).mpr (get_eq_some_iff.mp hd))
  | none =>
    cases he : (d.erase k).get k' with
    | none => rfl
    | some v =>
      rw [get_eq_some_iff.mpr ((hmem v).mp (get_eq_some_iff.mp he))] at hd
      cases hd

theorem get_add_self (d : Dict κ β) (k : κ) (v : β) (h : d.get k = none) :
    (d.add k v h).get k = some v :=
  get_eq_some_iff.mpr (List.mem_append_right _ List.mem_cons_self)

theorem get_add_ne (d : Dict κ β) {k k' : κ} (v : β) (h : d.get k = none) (hne : k' ≠ k) :
    (d.add k v h).get k' = d.get k' := by
  have hlast : [(k, v)].lookup k' = none := List.lookup_eq_none_iff.mpr fun x hx => by
    rw [List.mem_singleton.mp hx]
    exact bne_iff_ne.mpr hne
  show (d.entries ++ [(k, v)]).lookup k' = _
  rw [List.lookup_append, hlast]
  exact Option.or_none

end Dict

end Lib
