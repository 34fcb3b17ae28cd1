/-!
# NOR flash

The cells of a flash chip, one byte each. Programming only clears bits; erasing sets
all bits of whole sectors.

Results:
* `read_update`, `AgreeOutside.read`: what a read finds after a change;
* `AgreeOutside`: a change that stays inside a range, and how changes compose;
* `read_program_erased`: erased cells take any content;
* `sectors_aligned`: whole sectors.
-/

namespace Lib.Nor

abbrev Cells := Int → UInt8

/-- The `n` bytes from `a` on. -/
def read (m : Cells) (a : Int) (n : Nat) : List UInt8 := (List.range n).map fun i : Nat => m (a + i)

/-- The cells after the `n` bytes from `a` on got the content `f`. -/
def update (m : Cells) (a : Int) (n : Nat) (f : Nat → UInt8) : Cells :=
  fun x => if a ≤ x ∧ x < a + n then f (x - a).toNat else m x

/-- Program the bytes `bs` from `a` on. -/
def program (m : Cells) (a : Int) (bs : List UInt8) : Cells :=
  update m a bs.length fun i => m (a + i) &&& bs.getD i 0

/-- Where the sector of the cell `a` begins. -/
def sectorStart (sector : Nat) (a : Int) : Int := a / sector * sector

/-- The number of bytes in the sectors that the `n` bytes from `a` on touch. -/
def sectorSpan (sector : Nat) (a : Int) (n : Nat) : Nat :=
  (sectorStart sector (a + n + sector - 1) - sectorStart sector a).toNat

/-- Erase the sectors that the `n` bytes from `a` on touch. -/
def erase (sector : Nat) (m : Cells) (a : Int) (n : Nat) : Cells :=
  update m (sectorStart sector a) (sectorSpan sector a n) fun _ => 0xFF

@[simp] theorem length_read (m : Cells) (a : Int) (n : Nat) : (read m a n).length = n := by
  simp [read]

theorem read_congr {m m' : Cells} {a : Int} {n : Nat} (h : ∀ i : Nat, i < n → m (a + i) = m' (a + i)) :
    read m a n = read m' a n := by
  refine List.map_congr_left fun i hi => ?_
  exact h i (List.mem_range.mp hi)

/-- A read in two parts. -/
theorem read_add (m : Cells) (a : Int) (n k : Nat) :
    read m a (n + k) = read m a n ++ read m (a + n) k := by
  simp only [read, List.range_add, List.map_append, List.map_map]
  congr 1
  refine List.map_congr_left fun i _ => ?_
  simp only [Function.comp_apply, Int.natCast_add, Int.add_assoc]

/-- A part of what was read. -/
theorem take_drop_read (m : Cells) (a : Int) {n i k : Nat} (h : i + k ≤ n) :
    ((read m a n).drop i).take k = read m (a + i) k := by
  obtain ⟨r, rfl⟩ := Nat.exists_eq_add_of_le h
  rw [read_add, read_add, List.drop_append_of_le_length (by simp),
    List.drop_append_of_le_length (by simp)]
  rw [List.drop_of_length_le (by simp), List.nil_append, List.take_append_of_le_length (by simp),
    List.take_of_length_le (by simp)]

/-! ## Changes -/

/-- Outside the `n` bytes from `a` on, the cells are the same. -/
def AgreeOutside (m m' : Cells) (a : Int) (n : Nat) : Prop :=
  ∀ x, ¬ (a ≤ x ∧ x < a + n) → m' x = m x

theorem AgreeOutside.refl (m : Cells) (a : Int) (n : Nat) : AgreeOutside m m a n := fun _ _ => rfl

theorem AgreeOutside.trans {m m' m'' : Cells} {a : Int} {n : Nat} (h : AgreeOutside m m' a n)
    (h' : AgreeOutside m' m'' a n) : AgreeOutside m m'' a n :=
  fun x hx => (h' x hx).trans (h x hx)

theorem AgreeOutside.mono {m m' : Cells} {a b : Int} {n k : Nat} (h : AgreeOutside m m' a n)
    (hb : b ≤ a) (hk : a + n ≤ b + k) : AgreeOutside m m' b k :=
  fun x hx => h x fun ⟨h1, h2⟩ => hx ⟨Int.le_trans hb h1, Int.lt_of_lt_of_le h2 hk⟩

/-- A read that stays outside does not see the change. -/
theorem AgreeOutside.read {m m' : Cells} {a b : Int} {n k : Nat} (h : AgreeOutside m m' a n)
    (hout : b + k ≤ a ∨ a + n ≤ b) : read m' b k = read m b k := by
  refine read_congr fun i hi => h _ ?_
  omega

theorem agreeOutside_update (m : Cells) (a : Int) (n : Nat) (f : Nat → UInt8) :
    AgreeOutside m (update m a n f) a n :=
  fun _ hx => if_neg hx

theorem agreeOutside_program (m : Cells) (a : Int) (bs : List UInt8) :
    AgreeOutside m (program m a bs) a bs.length :=
  agreeOutside_update _ _ _ _

theorem agreeOutside_erase (sector : Nat) (m : Cells) (a : Int) (n : Nat) :
    AgreeOutside m (erase sector m a n) (sectorStart sector a) (sectorSpan sector a n) :=
  agreeOutside_update _ _ _ _

theorem read_update {m : Cells} {a : Int} {n : Nat} (f : Nat → UInt8) {i k : Nat}
    (h : i + k ≤ n) : read (update m a n f) (a + i) k = (List.range k).map fun j => f (i + j) := by
  refine List.map_congr_left fun j hj => ?_
  have hj := List.mem_range.mp hj
  show (if _ then _ else _) = _
  rw [if_pos (by omega)]
  congr 1
  omega

/-! ## Erasing and programming -/

/-- The `n` bytes from `a` on are erased. -/
def Erased (m : Cells) (a : Int) (n : Nat) : Prop := ∀ x, a ≤ x → x < a + n → m x = 0xFF

/-- The sectors that a range touches cover it. -/
theorem sectors_cover {sector : Nat} (hs : 0 < sector) (a : Int) (n : Nat) :
    sectorStart sector a ≤ a ∧ a + n ≤ sectorStart sector a + sectorSpan sector a n := by
  have hlow : sectorStart sector a ≤ a := Int.ediv_mul_le a (by omega)
  have hhigh : a + n ≤ sectorStart sector (a + n + sector - 1) := by
    have h := Int.lt_ediv_add_one_mul_self (a + n + sector - 1) (show (0 : Int) < sector by omega)
    rw [Int.add_mul] at h
    unfold sectorStart
    omega
  have hspan : (sectorSpan sector a n : Int) =
      sectorStart sector (a + n + sector - 1) - sectorStart sector a := by
    unfold sectorSpan
    omega
  omega

theorem erased_erase {sector : Nat} (hs : 0 < sector) (m : Cells) (a : Int) (n : Nat) :
    Erased (erase sector m a n) a n := by
  intro x h1 h2
  have hcover := sectors_cover hs a n
  exact if_pos (by omega)

/-- Erased cells take any content. -/
theorem read_program_erased {m : Cells} {a : Int} {bs : List UInt8} (h : Erased m a bs.length) :
    read (program m a bs) a bs.length = bs := by
  have hall := read_update (m := m) (a := a) (n := bs.length)
    (fun i => m (a + i) &&& bs.getD i 0) (i := 0) (k := bs.length) (by omega)
  rw [Int.natCast_zero, Int.add_zero] at hall
  rw [program, hall]
  apply List.ext_getElem
  · simp
  · intro i h1 h2
    have hff : m (a + i) = 0xFF := h _ (by omega) (by omega)
    have hand : ∀ b : UInt8, 0xFF &&& b = b := by
      intro b
      apply UInt8.toBitVec_inj.mp
      exact BitVec.allOnes_and
    simp only [List.getElem_map, List.getElem_range, Nat.zero_add, hff, hand]
    simp [h2]

/-- The sectors of a range that begins with one and stays inside of whole ones. -/
theorem sectors_aligned {sector : Nat} (hs : 0 < sector) {a : Int} {n k : Nat}
    (ha : (sector : Int) ∣ a) (hk : sector ∣ k) (hn : n ≤ k) :
    sectorStart sector a = a ∧ sectorSpan sector a n ≤ k := by
  have hstart : sectorStart sector a = a := Int.ediv_mul_cancel ha
  have hend : sectorStart sector (a + n + sector - 1) ≤ a + k := by
    obtain ⟨q, rfl⟩ := ha
    obtain ⟨r, rfl⟩ := hk
    have hlt : (sector : Int) * q + n + sector - 1 < (q + r + 1) * sector := by
      have hn' : (n : Int) ≤ sector * r := by exact_mod_cast hn
      have he : ((q + r + 1 : Int) * sector) = sector * q + sector * r + sector := by
        rw [Int.add_mul, Int.add_mul, Int.mul_comm q, Int.mul_comm (r : Int), Int.one_mul]
      omega
    have hdiv : (sector * q + n + sector - 1 : Int) / sector < q + r + 1 :=
      Int.ediv_lt_of_lt_mul (by omega) hlt
    have hle : (sector * q + n + sector - 1 : Int) / sector ≤ q + r := by omega
    have hmul := Int.mul_le_mul_of_nonneg_right hle (show (0 : Int) ≤ sector by omega)
    rw [Int.add_mul, Int.mul_comm q, Int.mul_comm (r : Int)] at hmul
    unfold sectorStart
    omega
  refine ⟨hstart, ?_⟩
  unfold sectorSpan
  rw [hstart]
  omega

end Lib.Nor
