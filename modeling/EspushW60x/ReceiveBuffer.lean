import EspushW60x.Codec

/-!
# The receive buffer

What the operations on a `Buffer` do to its contents: `buffer_add_data` appends,
`buffer_try_extract` finds the first complete frame, `buffer_shrink` drops the
first bytes.
-/

namespace EspushW60x

open Lib

/-- The bytes of the first frame in `c`, when it is complete. -/
def frameLen (c : Bytes) : Nat := ofBe16 c + 2

/-- The buffers live in the same blocks. -/
def Buffer.SameBlock (buf buf' : Buffer) : Prop :=
  buf'.addr = buf.addr ∧ buf'.buffer.addr = buf.buffer.addr ∧ buf'.cap = buf.cap

theorem Buffer.SameBlock.refl (buf : Buffer) : buf.SameBlock buf := ⟨rfl, rfl, rfl⟩

theorem Buffer.SameBlock.trans {a b c : Buffer} (hab : a.SameBlock b) (hbc : b.SameBlock c) :
    a.SameBlock c :=
  ⟨hbc.1.trans hab.1, hbc.2.1.trans hab.2.1, hbc.2.2.trans hab.2.2⟩

theorem sameBlock_shrink (buf : Buffer) (len : Nat) : buf.SameBlock (buf.shrink len) := by
  refine ⟨rfl, rfl, ?_⟩
  simp [Buffer.cap, Buffer.shrink]

theorem sameBlock_append (buf : Buffer) (bs : Bytes)
    (h : (buf.len + bs.length) % 0x100000000 ≤ buf.cap) : buf.SameBlock (buf.append bs h) := by
  refine ⟨rfl, rfl, ?_⟩
  simp [Buffer.cap, Buffer.append]

/-! ## Contents -/

theorem length_contents (buf : Buffer) : buf.contents.length = buf.len := by
  rw [Buffer.contents, List.length_take, Nat.min_eq_left buf.len_le]

theorem ofBe16_contents {buf : Buffer} (h : 2 ≤ buf.len) :
    ofBe16 buf.buffer.bytes = ofBe16 buf.contents :=
  (ofBe16_take h).symm

/-- A shrink drops the first bytes. -/
theorem contents_shrink (buf : Buffer) (len : Nat) :
    (buf.shrink len).contents = buf.contents.drop len := by
  have hle := buf.len_le
  have hw : ((buf.buffer.bytes.drop len).take (buf.len - len)).length = buf.len - len := by
    rw [List.length_take, List.length_drop]
    omega
  simp only [Buffer.contents, Buffer.shrink, Block.bytes_store]
  rw [take_patch_of_le _ (Nat.le_refl _), take_patch_zero (by omega) (by omega),
    List.take_of_length_le (Nat.le_of_eq hw), List.drop_take]

/-! ## Operations -/

theorem bufferIsFull_iff {buf : Buffer} (hcap : buf.cap = maxRecvBufferLength) :
    bufferIsFull buf = true ↔ 252 ≤ buf.len := by
  have hlen : buf.len ≤ buf.cap := buf.len_le
  simp only [bufferIsFull, decide_eq_true_eq, hcap, maxRecvBufferLength] at hlen ⊢
  omega

/-- The ways a call of `malloc_buffer` ends. -/
inductive MallocBufferResult (len : Nat) (m : Mem) : Option Buffer × Mem → Prop
  | noStruct : MallocBufferResult len m (none, { m with heap := m.heap.refuse })
  | noData : MallocBufferResult len m
      (none, { m with heap := ((m.heap.acquire .bufferStruct).refuse).release m.heap.next })
  | made (buf : Buffer) : buf.addr = m.heap.next → buf.buffer.addr = m.heap.next + 1 →
      buf.cap = len → buf.len = 0 →
      MallocBufferResult len m
        (some buf, { m with heap := (m.heap.acquire .bufferStruct).acquire .bufferData })

theorem mallocBuffer_result (e : Env) (len : Nat) (m : Mem) :
    MallocBufferResult len m ((mallocBuffer e len).run m) := by
  cases hs : e.grant m.heap.next .bufferStruct sizeofBuffer with
  | false =>
    have hrun : (mallocBuffer e len).run m = (none, { m with heap := m.heap.refuse }) := by
      simp only [mallocBuffer, lift_mem, Prog.run_bind, run_espushMalloc, hs, Bool.false_eq_true, if_false,
        Prog.run_pure]
    rw [hrun]
    exact .noStruct
  | true =>
    cases hd : e.grant (m.heap.next + 1) .bufferData len with
    | false =>
      have hrun : (mallocBuffer e len).run m =
          (none, { m with heap := ((m.heap.acquire .bufferStruct).refuse).release m.heap.next }) := by
        simp only [mallocBuffer, lift_mem, Prog.run_bind, run_espushMalloc, hs, hd, if_true,
          Ledger.next_acquire, Bool.false_eq_true, if_false, run_espushFree, Prog.run_pure,
          addr_freshBlock]
      rw [hrun]
      exact .noData
    | true =>
      have hrun : (mallocBuffer e len).run m =
          (some ⟨m.heap.next, freshBlock e (m.heap.next + 1) len, 0, Nat.zero_le _⟩,
            { m with heap := (m.heap.acquire .bufferStruct).acquire .bufferData }) := by
        simp only [mallocBuffer, lift_mem, Prog.run_bind, run_espushMalloc, hs, hd, if_true,
          Ledger.next_acquire, Prog.run_pure, addr_freshBlock]
      rw [hrun]
      exact .made _ rfl rfl (length_freshBlock _ _ _) rfl

/-- A buffer that data was added to holds it behind its contents. -/
theorem contents_append {buf : Buffer} {bs : Bytes} (h : (buf.len + bs.length) % 0x100000000 ≤ buf.cap)
    (hfit : buf.len + bs.length ≤ buf.cap) (hlt : buf.len + bs.length < 0x100000000) :
    (buf.append bs h).contents = buf.contents ++ bs := by
  simp only [Buffer.contents, Buffer.append, Block.bytes_store, Nat.mod_eq_of_lt hlt]
  exact take_patch hfit

/-- The ways a call of `buffer_add_data` ends, when lengths do not wrap around. -/
inductive AddDataResult (buf : Buffer) (bs : Bytes) (m : Mem) : (Int × Buffer) × Mem → Prop
  | refused : buf.cap < buf.len + bs.length → AddDataResult buf bs m ((-1, buf), m)
  | added (buf' : Buffer) (log : List Access) : buf.len + bs.length ≤ buf.cap →
      buf.SameBlock buf' → buf'.contents = buf.contents ++ bs →
      AddDataResult buf bs m (((buf'.len : Int), buf'), { m with log := log })

theorem bufferAddData_result (buf : Buffer) (bs : Bytes) (m : Mem) (hcap : buf.cap < 0x80000000)
    (hbs : bs.length < 0x80000000) : AddDataResult buf bs m ((bufferAddData buf bs).run m) := by
  have hlen : buf.len ≤ buf.cap := buf.len_le
  have hmod : (buf.len + bs.length) % 0x100000000 = buf.len + bs.length := Nat.mod_eq_of_lt (by omega)
  by_cases hfit : buf.len + bs.length ≤ buf.cap
  · have h : ¬ (buf.len + bs.length) % 0x100000000 > buf.cap := by omega
    have hrun : (bufferAddData buf bs).run m =
        ((((buf.append bs (Nat.le_of_not_gt h)).len : Int), buf.append bs (Nat.le_of_not_gt h)),
          { m with log := ⟨.bufferData, some buf.cap, buf.len, bs.length⟩ :: m.log }) := by
      have hint : intOf (buf.append bs (Nat.le_of_not_gt h)).len =
          (buf.append bs (Nat.le_of_not_gt h)).len := by
        rw [intOf_of_lt]
        show (buf.len + bs.length) % 0x100000000 < _
        omega
      simp only [bufferAddData, dif_neg h, Prog.run_bind, run_touch, Prog.run_pure, hint]
    rw [hrun]
    exact .added _ _ hfit (sameBlock_append _ _ _) (contents_append _ hfit (by omega))
  · have h : (buf.len + bs.length) % 0x100000000 > buf.cap := by omega
    have hrun : (bufferAddData buf bs).run m = ((-1, buf), m) := by
      simp only [bufferAddData, dif_pos h]
      rfl
    rw [hrun]
    exact .refused (by omega)

/-- `buffer_try_extract` finds the first complete frame. -/
theorem run_bufferTryExtract (buf : Buffer) (m : Mem) :
    ∃ log, (bufferTryExtract buf).run m =
      (if frameFormat.HasFrame buf.contents then (frameLen buf.contents : Int) else 0,
        { m with log := log }) := by
  simp only [bufferTryExtract, Prog.run_ite, Prog.run_pure, Prog.run_bind, run_touch]
  by_cases hlen : buf.len < 4
  · have hno : ¬ frameFormat.HasFrame buf.contents := fun h => by
      have h4 : 4 ≤ buf.contents.length := h.1
      rw [length_contents] at h4
      omega
    rw [if_pos hlen, if_neg hno]
    exact ⟨m.log, rfl⟩
  · have hbe : ofBe16 buf.buffer.bytes = ofBe16 buf.contents := ofBe16_contents (by omega)
    have hiff : frameFormat.HasFrame buf.contents ↔ buf.len ≥ ofBe16 buf.buffer.bytes + 2 := by
      show 4 ≤ buf.contents.length ∧ ofBe16 buf.contents + 2 ≤ buf.contents.length ↔ _
      rw [length_contents, hbe]
      omega
    rw [if_neg hlen]
    by_cases hfr : frameFormat.HasFrame buf.contents
    · rw [if_pos (hiff.mp hfr), if_pos hfr, frameLen, ← hbe]
      exact ⟨_, rfl⟩
    · rw [if_neg (mt hiff.mpr hfr), if_neg hfr]
      exact ⟨_, rfl⟩

theorem run_bufferShrink (buf : Buffer) (len : Nat) (m : Mem) :
    ∃ log, (bufferShrink buf len).run m = (buf.shrink len, { m with log := log }) := ⟨_, rfl⟩

end EspushW60x
