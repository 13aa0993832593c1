import KessokuOS.Lib.DoublyLinked
import KessokuOS.MemoryManager.FreeList

/-!
# The blocks of the heap

The blocks of a heap, from its base to its end, are a list of addresses
(`Layout`): their headers are linked in this order, and follow each other with
at least the room of a header. The sizes, which are not stored, are the gaps
(`Layout.add_getBlockSize`), so that the payloads lie between the headers
(`Layout.payload_le`).

`Heap` adds the list of the unused blocks: it has no block twice, only blocks
of the heap that are not used, and is sorted by size. It need not have all of
them, as a full list drops a block silently.

Two operations change the blocks, and keep a heap one:

* `absorb` makes a block a part of the one before it (`Heap.absorb`);
* `carve` makes a block of the last bytes of another one (`Heap.carve_last`).
-/

namespace KessokuOS.MemoryManager

variable {s s' : State} {base b c x y : ℕ} {bs l r : List ℕ}

/-- The blocks of the heap from `base` on are `bs`, in the order of their
    addresses. -/
structure Layout (s : State) (base : ℕ) (bs : List ℕ) : Prop where
  base_pos : 0 < base
  baseNode_eq : s.baseNode = base
  head_eq : bs.head? = some base
  linked : Linked 0 s.prev s.next bs
  tiles : (bs ++ [s.endAddress]).Pairwise fun x y => x + 12 ≤ y

namespace Layout

theorem le_of_mem (h : Layout s base bs) (hx : x ∈ bs) : base ≤ x ∧ x + 12 ≤ s.endAddress := by
  refine ⟨?_, (List.pairwise_append.1 h.tiles).2.2 x hx _ (List.mem_singleton_self _)⟩
  obtain ⟨bs, rfl⟩ := List.head?_eq_some_iff.1 h.head_eq
  rcases List.mem_cons.1 hx with rfl | hx
  · exact le_rfl
  · have := (List.pairwise_cons.1 h.tiles).1 x (List.mem_append_left _ hx)
    omega

theorem pos_of_mem (h : Layout s base bs) (hx : x ∈ bs) : 0 < x :=
  h.base_pos.trans_le (h.le_of_mem hx).1

theorem nodup (h : Layout s base bs) : bs.Nodup :=
  (List.pairwise_append.1 h.tiles).1.imp fun hxy => by omega

/-- The blocks around a block have other addresses. -/
theorem not_mem (h : Layout s base (l ++ b :: r)) : b ∉ l ∧ b ∉ r := by
  have hb := List.perm_middle.nodup_iff.1 h.nodup
  rw [List.nodup_cons, List.mem_append, not_or] at hb
  exact hb.1

theorem next_eq (h : Layout s base (l ++ b :: r)) : s.next b = r.headD 0 :=
  h.linked.next_eq (h.pos_of_mem (by simp)).ne'

theorem prev_eq (h : Layout s base (l ++ b :: r)) : s.prev b = l.getLastD 0 :=
  h.linked.prev_eq (h.pos_of_mem (by simp)).ne'

/-- What follows a block lies behind its header. -/
theorem add_le (h : Layout s base (l ++ b :: r)) (hx : x ∈ r ++ [s.endAddress]) :
    b + 12 ≤ x := by
  have ht := h.tiles
  rw [List.append_assoc, List.cons_append] at ht
  exact (List.pairwise_cons.1 (List.pairwise_append.1 ht).2.1).1 x hx

/-- The size of a block is the gap between its header and what follows. -/
theorem add_getBlockSize (h : Layout s base (l ++ b :: r)) :
    b + 12 + s.getBlockSize b = r.headD s.endAddress := by
  have hend : (if s.next b = 0 then s.endAddress else s.next b) = r.headD s.endAddress := by
    rw [h.next_eq]
    cases r with
    | nil => rfl
    | cons c r => exact if_neg (h.pos_of_mem (x := c) (by simp)).ne'
  have hle : b + 12 ≤ r.headD s.endAddress := h.add_le (by cases r <;> simp)
  have hlt : r.headD s.endAddress < 2 ^ 32 := by
    have he := s.endAddress_lt
    cases r with
    | nil => exact he
    | cons c r => exact (Nat.le_of_add_right_le (h.le_of_mem (by simp)).2).trans_lt he
  exact State.add_getBlockSize_of_end (h.pos_of_mem (by simp)).ne' hend hlt hle

/-- The payload of a block ends where what follows it begins. -/
theorem payload_le (h : Layout s base (l ++ b :: r)) (hx : x ∈ r ++ [s.endAddress]) :
    b + 12 + s.getBlockSize b ≤ x := by
  rw [h.add_getBlockSize]
  have ht := h.tiles
  rw [List.append_assoc, List.cons_append] at ht
  have hr := (List.pairwise_cons.1 (List.pairwise_append.1 ht).2.1).2
  cases r with
  | nil => exact (List.mem_singleton.1 hx).ge
  | cons c r =>
    rcases List.mem_cons.1 hx with rfl | hx
    · exact le_rfl
    · exact (Nat.le_add_right c 12).trans ((List.pairwise_cons.1 hr).1 x hx)

/-- Of two blocks, the payload of one ends where the header of the other begins,
    at the latest. -/
theorem separate (h : Layout s base bs) (hx : x ∈ bs) (hy : y ∈ bs) (hxy : x ≠ y) :
    x + 12 + s.getBlockSize x ≤ y ∨ y + 12 + s.getBlockSize y ≤ x := by
  obtain ⟨l, r, rfl⟩ := List.append_of_mem hx
  rcases List.mem_append.1 hy with hy | hy
  · right
    obtain ⟨l, r', rfl⟩ := List.append_of_mem hy
    rw [List.append_assoc, List.cons_append] at h
    exact h.payload_le (by simp)
  · have hy := (List.mem_cons.1 hy).resolve_left hxy.symm
    exact .inl (h.payload_le (List.mem_append_left _ hy))

/-- The headers of two blocks coincide or do not overlap. -/
theorem apart (h : Layout s base bs) (hx : x ∈ bs) (hy : y ∈ bs) : Apart x y := by
  rw [Apart]
  by_cases hxy : x = y
  · exact .inl hxy
  · have := h.separate hx hy hxy
    omega

theorem next_mem (h : Layout s base bs) (hx : x ∈ bs) (h₀ : s.next x ≠ 0) : s.next x ∈ bs := by
  obtain ⟨l, r, rfl⟩ := List.append_of_mem hx
  rw [h.next_eq] at h₀ ⊢
  cases r with
  | nil => exact absurd rfl h₀
  | cons c r => simp

theorem next_ne (h : Layout s base bs) (hx : x ∈ bs) : s.next x ≠ x := by
  obtain ⟨l, r, rfl⟩ := List.append_of_mem hx
  have hr := h.not_mem.2
  rw [h.next_eq]
  cases r with
  | nil => exact (h.pos_of_mem hx).ne
  | cons c r =>
    rintro rfl
    exact hr List.mem_cons_self

theorem prev_ne (h : Layout s base bs) (hx : x ∈ bs) : s.prev x ≠ x := by
  obtain ⟨l, r, rfl⟩ := List.append_of_mem hx
  have hl := h.not_mem.1
  rw [h.prev_eq]
  rcases List.eq_nil_or_concat l with rfl | ⟨l, a, rfl⟩
  · exact (h.pos_of_mem hx).ne
  · rw [List.concat_eq_append, List.getLastD_concat]
    rintro rfl
    exact hl (by simp)

/-- The blocks only depend on their links. -/
theorem congr (h : Layout s base bs) (hb : s'.baseNode = s.baseNode)
    (he : s'.endAddress = s.endAddress)
    (hl : ∀ x ∈ bs, s'.next x = s.next x ∧ s'.prev x = s.prev x) : Layout s' base bs where
  base_pos := h.base_pos
  baseNode_eq := hb.trans h.baseNode_eq
  head_eq := h.head_eq
  linked := h.linked.congr hl
  tiles := by rw [he]; exact h.tiles

end Layout

namespace State

/-- The block `c` made a part of the block `b` before it. -/
def absorb (s : State) (b c : ℕ) : State :=
  let s' := s.setNext b (s.next c)
  if s.next c ≠ 0 then s'.setPrev (s.next c) b else s'

/-- A block made at `c`, of the last bytes of the block `b`. -/
def carve (s : State) (b c : ℕ) : State := (s.setHeader c b (s.next b) false).setNext b c

theorem memoryInfo_absorb : (s.absorb b c).memoryInfo = s.memoryInfo := by
  rw [absorb]
  by_cases h₀ : s.next c ≠ 0
  · rw [if_pos h₀]
    rfl
  · rw [if_neg h₀]
    rfl

theorem next_absorb (hb : Apart x b) (hd : s.next c ≠ 0 → Apart x (s.next c)) :
    (s.absorb b c).next x = if x = b then s.next c else s.next x := by
  have hset : (s.setNext b (s.next c)).next x = if x = b then s.next c else s.next x := by
    by_cases hx : x = b
    · rw [if_pos hx, hx, next_setNext_self (s.next_lt c)]
    · rw [if_neg hx, next_setNext_of_ne hb hx]
  rw [absorb]
  by_cases h₀ : s.next c ≠ 0
  · rw [if_pos h₀, next_setPrev (hd h₀), hset]
  · rw [if_neg h₀, hset]

theorem used_absorb (hb : Apart x b) (hd : s.next c ≠ 0 → Apart x (s.next c)) :
    (s.absorb b c).used x = s.used x := by
  rw [absorb]
  by_cases h₀ : s.next c ≠ 0
  · rw [if_pos h₀, used_setPrev (hd h₀), used_setNext hb]
  · rw [if_neg h₀, used_setNext hb]

theorem prev_absorb_of_ne (hb : Apart x b) (hd : s.next c ≠ 0 → Apart x (s.next c))
    (hx : x ≠ s.next c) : (s.absorb b c).prev x = s.prev x := by
  rw [absorb]
  by_cases h₀ : s.next c ≠ 0
  · rw [if_pos h₀, prev_setPrev_of_ne (hd h₀) hx, prev_setNext hb]
  · rw [if_neg h₀, prev_setNext hb]

theorem prev_absorb_next (hb : b < 2 ^ 32) (h₀ : s.next c ≠ 0) :
    (s.absorb b c).prev (s.next c) = b := by
  rw [absorb, if_pos h₀, prev_setPrev_self hb]

variable (hbc : Apart c b) (hne : c ≠ b)

theorem memoryInfo_carve : (s.carve b c).memoryInfo = s.memoryInfo := rfl

theorem next_carve_self (hc : c < 2 ^ 32) : (s.carve b c).next b = c := next_setNext_self hc

theorem next_carve_of_ne (hb : Apart x b) (hc : Apart x c) (hxb : x ≠ b) (hxc : x ≠ c) :
    (s.carve b c).next x = s.next x := by
  rw [carve, next_setNext_of_ne hb hxb, setHeader, next_setUsed hc, next_setNext_of_ne hc hxc,
    next_setPrev hc]

theorem prev_carve_of_ne (hb : Apart x b) (hc : Apart x c) (hxc : x ≠ c) :
    (s.carve b c).prev x = s.prev x := by
  rw [carve, prev_setNext hb, setHeader, prev_setUsed hc, prev_setNext hc,
    prev_setPrev_of_ne hc hxc]

theorem used_carve_of_ne (hb : Apart x b) (hc : Apart x c) (hxc : x ≠ c) :
    (s.carve b c).used x = s.used x := by
  rw [carve, used_setNext hb, setHeader, used_setUsed_of_ne hxc, used_setNext hc, used_setPrev hc]

include hbc

theorem prev_carve_new (hb : b < 2 ^ 32) : (s.carve b c).prev c = b := by
  rw [carve, prev_setNext hbc, setHeader, prev_setUsed (.inl rfl), prev_setNext (.inl rfl),
    prev_setPrev_self hb]

theorem used_carve_new : (s.carve b c).used c = false := by
  rw [carve, used_setNext hbc, setHeader, used_setUsed_self]

include hne

theorem next_carve_new : (s.carve b c).next c = s.next b := by
  rw [carve, next_setNext_of_ne hbc hne, setHeader, next_setUsed (.inl rfl),
    next_setNext_self (s.next_lt b)]

end State

/-! ## Making a block a part of the one before it -/

namespace Layout

/-- The headers that `absorb` writes are apart from those of the blocks. -/
theorem apart_next (h : Layout s base bs) (hx : x ∈ bs) (hy : y ∈ bs) (h₀ : s.next y ≠ 0) :
    Apart x (s.next y) :=
  h.apart hx (h.next_mem hy h₀)

theorem used_absorb (h : Layout s base (l ++ b :: c :: r)) (hx : x ∈ l ++ b :: c :: r) :
    (s.absorb b c).used x = s.used x :=
  State.used_absorb (h.apart hx (by simp)) (h.apart_next hx (by simp))

theorem next_absorb_of_ne (h : Layout s base (l ++ b :: c :: r)) (hx : x ∈ l ++ b :: c :: r)
    (hxb : x ≠ b) : (s.absorb b c).next x = s.next x := by
  rw [State.next_absorb (h.apart hx (by simp)) (h.apart_next hx (by simp)), if_neg hxb]

theorem absorb (h : Layout s base (l ++ b :: c :: r)) :
    Layout (s.absorb b c) base (l ++ b :: r) := by
  have hmem : ∀ x ∈ l ++ b :: r, x ∈ l ++ b :: c :: r := fun x hx => by
    simp only [List.mem_append, List.mem_cons] at hx ⊢
    grind
  have hnb := h.not_mem
  have h' : Layout s base ((l ++ [b]) ++ c :: r) := by simpa using h
  have hb : b ∈ l ++ b :: c :: r := by simp
  refine ⟨h.base_pos, ?_, ?_, ?_, ?_⟩
  · rw [State.baseNode, State.memoryInfo_absorb]
    exact h.baseNode_eq
  · rw [← h.head_eq]
    cases l <;> rfl
  · refine h.linked.remove (h.pos_of_mem (by simp)).ne' (fun x hx => ?_) (fun x hx => ?_) ?_ ?_
    · have hxb : x ≠ b := by
        rintro rfl
        exact (List.mem_append.1 hx).elim hnb.1 fun hx => hnb.2 (List.mem_cons_of_mem _ hx)
      exact h.next_absorb_of_ne (by simp only [List.mem_append, List.mem_cons] at hx ⊢; grind) hxb
    · have hxm : x ∈ l ++ b :: c :: r := by
        simp only [List.mem_append, List.mem_cons] at hx ⊢
        exact hx.imp_right (Or.imp_right fun hx => .inr (List.mem_of_mem_tail hx))
      refine State.prev_absorb_of_ne (h.apart hxm hb) (h.apart_next hxm (by simp)) ?_
      rw [h'.next_eq]
      cases r with
      | nil => exact (h.pos_of_mem hxm).ne'
      | cons d r =>
        -- The block behind `c` is the only one whose link back changes.
        have hd := (show Layout s base ((l ++ [b, c]) ++ d :: r) by simpa using h).not_mem
        rintro rfl
        simp only [List.mem_append, List.mem_cons, List.tail_cons] at hx hd
        grind
    · rw [State.next_absorb (.inl rfl) (h.apart_next hb (by simp)), if_pos rfl]
    · intro d hd
      cases r with
      | nil => exact absurd hd (by simp)
      | cons e r =>
        obtain rfl : e = d := by simpa using hd
        have hnext : s.next c = e := h'.next_eq
        have he := h.pos_of_mem (x := e) (by simp)
        have hlt := (h.le_of_mem hb).2.trans_lt s.endAddress_lt
        rw [← hnext] at he ⊢
        exact State.prev_absorb_next (by omega) he.ne'
  · rw [State.endAddress, State.memoryInfo_absorb]
    refine h.tiles.sublist ?_
    simp

/-- Absorbing the block behind it makes a block larger, and no other one. -/
theorem getBlockSize_absorb (h : Layout s base (l ++ b :: c :: r)) :
    (∀ x ∈ l ++ r, (s.absorb b c).getBlockSize x = s.getBlockSize x) ∧
      s.getBlockSize b ≤ (s.absorb b c).getBlockSize b := by
  have he : (s.absorb b c).endAddress = s.endAddress := by
    rw [State.endAddress, State.memoryInfo_absorb]
  constructor
  · intro x hx
    have hnb := h.not_mem
    refine State.getBlockSize_congr (h.next_absorb_of_ne ?_ ?_) he
    · simp only [List.mem_append, List.mem_cons] at hx ⊢
      grind
    · rintro rfl
      exact (List.mem_append.1 hx).elim hnb.1 fun hx => hnb.2 (List.mem_cons_of_mem _ hx)
  · have hold := h.add_getBlockSize
    have hnew := h.absorb.add_getBlockSize
    have hc : c + 12 ≤ r.headD s.endAddress :=
      (show Layout s base ((l ++ [b]) ++ c :: r) by simpa using h).add_le (by cases r <;> simp)
    rw [List.headD_cons] at hold
    rw [he] at hnew
    omega

/-! ## Making a block of the end of the last one -/

/-- The blocks end before a block that begins in the payload of the last one. -/
theorem add_le_of_mem_concat (h : Layout s base (l ++ [b])) (hbc : b + 12 ≤ c)
    (hx : x ∈ l ++ [b]) : x + 12 ≤ c := by
  rcases List.mem_append.1 hx with hx | hx
  · have := (List.pairwise_append.1 (List.pairwise_append.1 h.tiles).1).2.2 x hx b (by simp)
    omega
  · rwa [List.mem_singleton.1 hx]

theorem carve_last (h : Layout s base (l ++ [b])) (hbc : b + 12 ≤ c)
    (hc : c + 12 ≤ s.endAddress) : Layout (s.carve b c) base (l ++ [b, c]) := by
  have hlt : c < 2 ^ 32 := by
    have := s.endAddress_lt
    exact (Nat.le_of_add_right_le hc).trans_lt this
  have hapart : ∀ x ∈ l ++ [b], Apart x c := fun x hx => .inr (.inl (h.add_le_of_mem_concat hbc hx))
  have hne : ∀ x ∈ l ++ [b], x ≠ c := fun x hx => by
    have := h.add_le_of_mem_concat hbc hx
    omega
  have hb : b ∈ l ++ [b] := by simp
  refine ⟨h.base_pos, h.baseNode_eq, ?_, ?_, ?_⟩
  · rw [← h.head_eq]
    cases l <;> rfl
  · -- The links of the other blocks are not touched.
    refine h.linked.concat (fun x hx => ?_) (fun x hx => ?_) ?_ ?_ ?_
    · have hx' : x ∈ l ++ [b] := List.mem_append_left _ hx
      refine State.next_carve_of_ne (h.apart hx' hb) (hapart x hx') ?_ (hne x hx')
      rintro rfl
      exact h.not_mem.1 hx
    · exact State.prev_carve_of_ne (h.apart hx hb) (hapart x hx) (hne x hx)
    · exact State.next_carve_self hlt
    · exact State.prev_carve_new (.inr (.inr hbc)) (by omega)
    · rw [State.next_carve_new (.inr (.inr hbc)) (by omega), h.next_eq]
      rfl
  · rw [State.endAddress, State.memoryInfo_carve,
      show l ++ [b, c] ++ [s.memoryInfo.endAddress] = (l ++ [b]) ++ [c, s.endAddress] by simp]
    refine List.pairwise_append.2 ⟨(List.pairwise_append.1 h.tiles).1, ?_, fun x hx y hy => ?_⟩
    · exact List.pairwise_pair.2 hc
    · have := h.add_le_of_mem_concat hbc hx
      rcases List.mem_pair.1 hy with rfl | rfl
      · exact this
      · omega

/-- Making a block of the end of the last one leaves the sizes of the others. -/
theorem getBlockSize_carve_last (h : Layout s base (l ++ [b])) (hbc : b + 12 ≤ c)
    (hc : c + 12 ≤ s.endAddress) :
    (∀ x ∈ l, (s.carve b c).getBlockSize x = s.getBlockSize x) ∧
      b + 12 + (s.carve b c).getBlockSize b = c := by
  constructor
  · intro x hx
    have hx' : x ∈ l ++ [b] := List.mem_append_left _ hx
    have hxc := h.add_le_of_mem_concat hbc hx'
    refine State.getBlockSize_congr (State.next_carve_of_ne (h.apart hx' (by simp))
      (.inr (.inl hxc)) ?_ (by omega)) rfl
    rintro rfl
    exact h.not_mem.1 hx
  · exact (h.carve_last hbc hc).add_getBlockSize

end Layout

/-! ## Heaps -/

/-- A heap of the blocks `bs` from `base` on, with a list of some unused ones. -/
structure Heap (s : State) (base : ℕ) (bs : List ℕ) : Prop extends Layout s base bs where
  nodup_free : s.freeList.Nodup
  sorted : s.FreeSorted
  listed : ∀ x ∈ s.freeList, x ∈ bs ∧ s.used x = false

namespace Heap

/-- A heap stays one as long as the links, the listed flags and the variables do. -/
theorem congr (h : Heap s base bs) (hi : s'.memoryInfo = s.memoryInfo)
    (hl : ∀ x ∈ bs, s'.next x = s.next x ∧ s'.prev x = s.prev x)
    (hu : ∀ x ∈ s.freeList, s'.used x = s.used x) : Heap s' base bs := by
  have hb : s'.baseNode = s.baseNode := by rw [State.baseNode, hi]
  have he : s'.endAddress = s.endAddress := by rw [State.endAddress, hi]
  have hf : s'.freeList = s.freeList := by rw [State.freeList, State.freeBlocks, hi]
  refine ⟨h.toLayout.congr hb he hl, hf ▸ h.nodup_free, ?_, fun x hx => ?_⟩
  · rw [State.FreeSorted, hf]
    exact h.sorted.congr fun x hx => State.getBlockSize_congr (hl x (h.listed x hx).1).1 he
  · rw [hf] at hx
    rw [hu x hx]
    exact h.listed x hx

/-- The flag of a block that is not listed is free to change. -/
theorem setUsed (h : Heap s base bs) (hb : b ∈ bs) (hn : b ∉ s.freeList) (u : Bool) :
    Heap (s.setUsed b u) base bs :=
  h.congr rfl (fun _ hx => ⟨State.next_setUsed (h.apart hx hb), State.prev_setUsed (h.apart hx hb)⟩)
    fun _ hx => State.used_setUsed_of_ne fun hxb => hn (hxb ▸ hx)

/-- A heap stays one with another sorted list of unused blocks. -/
theorem setFreeBlocks (h : Heap s base bs) {v : FCVector ℕ 2048} (hn : v.toList.Nodup)
    (hs : SortedBy s.getBlockSize v.toList) (hv : ∀ x ∈ v.toList, x ∈ bs ∧ s.used x = false) :
    Heap (s.setFreeBlocks v) base bs :=
  ⟨h.toLayout.congr rfl rfl fun _ _ => ⟨rfl, rfl⟩, hn, hs.congr fun _ _ =>
    State.getBlockSize_setFreeBlocks, hv⟩

theorem erase (h : Heap s base bs) {v : FCVector ℕ 2048} (hv : v.toList.Sublist s.freeList) :
    Heap (s.setFreeBlocks v) base bs :=
  h.setFreeBlocks (h.nodup_free.sublist hv) (h.sorted.sublist hv) fun x hx =>
    h.listed x (hv.subset hx)

/-- Listing a block, which a full list does not do. -/
theorem addFreeBlock (h : Heap s base bs) (hb : b ∈ bs) (hu : s.used b = false)
    (hn : b ∉ s.freeList) : ∃ v, s.addFreeBlock b = s.setFreeBlocks v ∧
      Heap (s.setFreeBlocks v) base bs ∧ (s.freeBlocks.size < 2048 →
        v.toList.Perm (b :: s.freeList)) ∧ v.toList ⊆ b :: s.freeList := by
  by_cases hlt : s.freeBlocks.size < 2048
  · obtain ⟨v, hv, hl⟩ := State.addFreeBlock_of_lt h.sorted b hlt
    have hp : v.toList.Perm (b :: s.freeList) := by
      rw [hl]
      exact List.perm_insertIdx _ _ lowerBound_le_length
    refine ⟨v, hv, h.setFreeBlocks ?_ ?_ fun x hx => ?_, fun _ => hp, hp.subset⟩
    · exact hp.nodup_iff.2 (List.nodup_cons.2 ⟨hn, h.nodup_free⟩)
    · rw [hl]
      exact h.sorted.insertIdx b
    · rcases List.mem_cons.1 (hp.subset hx) with rfl | hx
      · exact ⟨hb, hu⟩
      · exact h.listed x hx
  · exact ⟨s.freeBlocks, State.addFreeBlock_of_full h.sorted b hlt, h.erase (List.Sublist.refl _),
      fun h' => absurd h' hlt, List.subset_cons_self _ _⟩

theorem absorb (h : Heap s base (l ++ b :: c :: r)) (hb : b ∉ s.freeList) (hc : c ∉ s.freeList) :
    Heap (s.absorb b c) base (l ++ b :: r) := by
  have hf : (s.absorb b c).freeList = s.freeList := by
    rw [State.freeList, State.freeBlocks, State.memoryInfo_absorb]
  have hmem : ∀ x ∈ s.freeList, x ∈ l ++ r := fun x hx => by
    have hxb : x ≠ b := fun h => hb (h ▸ hx)
    have hxc : x ≠ c := fun h => hc (h ▸ hx)
    have := (h.listed x hx).1
    simp only [List.mem_append, List.mem_cons] at this ⊢
    grind
  refine ⟨h.toLayout.absorb, hf ▸ h.nodup_free, ?_, fun x hx => ?_⟩
  · rw [State.FreeSorted, hf]
    exact h.sorted.congr fun x hx => h.toLayout.getBlockSize_absorb.1 x (hmem x hx)
  · rw [hf] at hx
    rw [h.used_absorb (h.listed x hx).1]
    refine ⟨?_, (h.listed x hx).2⟩
    have := hmem x hx
    simp only [List.mem_append, List.mem_cons] at this ⊢
    grind

theorem carve_last (h : Heap s base (l ++ [b])) (hb : b ∉ s.freeList) (hbc : b + 12 ≤ c)
    (hc : c + 12 ≤ s.endAddress) : Heap (s.carve b c) base (l ++ [b, c]) := by
  have hmem : ∀ x ∈ s.freeList, x ∈ l := fun x hx =>
    (List.mem_append.1 (h.listed x hx).1).resolve_right fun hx' =>
      hb (List.mem_singleton.1 hx' ▸ hx)
  refine ⟨h.toLayout.carve_last hbc hc, h.nodup_free, ?_, fun x hx => ?_⟩
  · exact h.sorted.congr fun x hx => (h.getBlockSize_carve_last hbc hc).1 x (hmem x hx)
  · have hx' : x ∈ l ++ [b] := (h.listed x hx).1
    have hxc := h.add_le_of_mem_concat hbc hx'
    refine ⟨List.mem_append_left _ (hmem x hx), ?_⟩
    rw [State.used_carve_of_ne (h.apart hx' (by simp)) (.inr (.inl hxc)) (by omega)]
    exact (h.listed x hx).2

end Heap

end KessokuOS.MemoryManager
