import KessokuOS.MemoryManager.BestFit
import KessokuOS.MemoryManager.Safety

/-!
# Allocations in scopes

A program that frees what it has allocated in the opposite order uses the heap like a
stack (`Scopes`). A request that splits a block inside the heap leaves a wrong link back
from the block behind it; but the block behind it is in use, is older, and is thus freed
only when the split block is whole again, and the link has been set anew.

So much of a heap is kept even by such a request (`Loose`): only the links back from the
unused blocks need to be right.

* `Loose.malloc`: a request keeps this, and if the heap has been restored when the block
  is freed, `free` restores the heap before the request (`Restored`), the order of its
  list included;
* `Scopes.run_restores`: hence no `free` of such a program fails, and it leaves a
  well-formed heap as it was.
-/

namespace KessokuOS.MemoryManager

/-- A program that allocates in scopes: a block is freed at the end of its scope. -/
inductive Scopes
  | done
  /-- The allocation for the scope `body`, which is skipped if there is no memory. -/
  | alloc (size : ℕ) (body rest : Scopes)
  /-- A byte of the allocation of the `i`th scope around is written. -/
  | write (i offset : ℕ) (v : Byte) (rest : Scopes)

/-- Runs the program, with the allocations of the scopes around it; fails if a `free`
    does. A write behind the end of its allocation is not made. -/
def Scopes.run : Scopes → (live : List (ℕ × ℕ)) → State → Option State
  | .done, _, s => some s
  | .alloc size body rest, live, s =>
    match s.malloc size with
    | (.error _, s) => rest.run live s
    | (.ok p, s) =>
      (body.run ((p, getSmallestGteMultiple size 4) :: live) s).bind fun s =>
        match s.free p with
        | (.error _, _) => none
        | (.ok (), s) => rest.run live s
  | .write i offset v rest, live, s =>
    rest.run live (((live[i]?).filter fun q => offset < q.2).elim s fun q =>
      s.writeByte (q.1 + offset) v)

/-- A heap with the blocks `bs`, in which the link back from a used block may be wrong. -/
structure Loose (s : State) (base : ℕ) (bs : List ℕ) : Prop where
  baseNode_eq : s.baseNode = base
  chain : Chain s base bs
  tiles : (bs ++ [s.endAddress]).Pairwise fun x y => x + 12 ≤ y
  coalesced : Coalesced s bs
  nodup_free : s.freeList.Nodup
  mem_free_iff : ∀ b, b ∈ s.freeList ↔ b ∈ bs ∧ s.used b = false
  sorted : s.FreeSorted
  back : (0 :: bs).IsChain fun x y => s.used y = false → s.prev y = x

/-- The heap is as it was, or a link back has been set right. -/
structure Restored (s : State) (bs : List ℕ) (s' : State) : Prop where
  baseNode_eq : s'.baseNode = s.baseNode
  endAddress_eq : s'.endAddress = s.endAddress
  freeList_eq : s'.freeList = s.freeList
  next_eq : ∀ x ∈ bs, s'.next x = s.next x
  used_eq : ∀ x ∈ bs, s'.used x = s.used x
  back : (0 :: bs).IsChain fun x y => s'.prev y = s.prev y ∨ s'.prev y = x

variable {s s' s'' : State} {base b c p x y size : ℕ} {bs l r : List ℕ}

namespace Restored

theorem refl (s : State) (bs : List ℕ) : Restored s bs s :=
  ⟨rfl, rfl, rfl, fun _ _ => rfl, fun _ _ => rfl, isChain_of_forall fun _ _ => .inl rfl⟩

theorem trans (h : Restored s bs s') (h' : Restored s' bs s'') : Restored s bs s'' where
  baseNode_eq := h'.baseNode_eq.trans h.baseNode_eq
  endAddress_eq := h'.endAddress_eq.trans h.endAddress_eq
  freeList_eq := h'.freeList_eq.trans h.freeList_eq
  next_eq x hx := (h'.next_eq x hx).trans (h.next_eq x hx)
  used_eq x hx := (h'.used_eq x hx).trans (h.used_eq x hx)
  back := isChain_imp₂ (fun _ _ _ h₁ h₂ => by rcases h₂ with h₂ | h₂ <;> grind) h.back h'.back

theorem getBlockSize_eq (h : Restored s bs s') (hx : x ∈ bs) :
    s'.getBlockSize x = s.getBlockSize x :=
  State.getBlockSize_congr (h.next_eq x hx) h.endAddress_eq

end Restored

/-! ## The blocks of a loose heap -/

theorem Chain.ne_zero {a : ℕ} (h : Chain s a bs) (hx : x ∈ bs) : x ≠ 0 := by
  induction h with
  | nil => exact absurd hx List.not_mem_nil
  | cons h₀ _ ih =>
    rcases List.mem_cons.1 hx with rfl | hx
    · exact h₀
    · exact ih hx

theorem Chain.next_eq {a : ℕ} (h : Chain s a (l ++ b :: r)) : s.next b = r.headD 0 := by
  induction l generalizing a with
  | nil =>
    cases h with
    | cons _ h => exact h.eq_headD
  | cons d l ih =>
    cases h with
    | cons _ h => exact ih h

namespace Loose

/-- The link back from a used block is of no importance. -/
theorem congr (h : Loose s base bs) (hr : Restored s bs s') : Loose s' base bs where
  baseNode_eq := hr.baseNode_eq.trans h.baseNode_eq
  chain := h.chain.congr hr.next_eq
  tiles := by rw [hr.endAddress_eq]; exact h.tiles
  coalesced := h.coalesced.imp_of_mem_imp fun x y hx hy hxy => by
    rwa [hr.used_eq x hx, hr.used_eq y hy]
  nodup_free := by rw [hr.freeList_eq]; exact h.nodup_free
  mem_free_iff b := by
    rw [hr.freeList_eq, h.mem_free_iff]
    exact and_congr_right fun hb => by rw [hr.used_eq b hb]
  sorted := by
    rw [State.FreeSorted, hr.freeList_eq]
    exact h.sorted.congr fun x hx => hr.getBlockSize_eq ((h.mem_free_iff x).1 hx).1
  back := isChain_imp₂ (fun x y hy hxy hxy' hu => by
    rcases hxy' with hp | hp
    · rw [hp, hxy (hr.used_eq y hy ▸ hu)]
    · exact hp) h.back hr.back

theorem not_mem (h : Loose s base (l ++ b :: r)) : b ∉ l ∧ b ∉ r := by
  have hn : (l ++ b :: r).Nodup :=
    (List.pairwise_append.1 h.tiles).1.imp fun hxy => by omega
  have hb := List.perm_middle.nodup_iff.1 hn
  rw [List.nodup_cons, List.mem_append, not_or] at hb
  exact hb.1

/-- What follows a block lies behind its header. -/
theorem add_le (h : Loose s base (l ++ b :: r)) (hx : x ∈ r ++ [s.endAddress]) : b + 12 ≤ x := by
  have ht := h.tiles
  rw [List.append_assoc, List.cons_append] at ht
  exact (List.pairwise_cons.1 (List.pairwise_append.1 ht).2.1).1 x hx

theorem apart (h : Loose s base bs) (hx : x ∈ bs) (hy : y ∈ bs) : Apart x y := by
  obtain ⟨l, r, rfl⟩ := List.append_of_mem hx
  rcases List.mem_append.1 hy with hy | hy
  · obtain ⟨l, r', rfl⟩ := List.append_of_mem hy
    rw [List.append_assoc, List.cons_append] at h
    exact .inr (.inr (h.add_le (by simp)))
  · rcases List.mem_cons.1 hy with rfl | hy
    · exact .inl rfl
    · exact .inr (.inl (h.add_le (List.mem_append_left _ hy)))

/-- The size of a block is the gap between its header and what follows. -/
theorem add_getBlockSize (h : Loose s base (l ++ b :: r)) :
    b + 12 + s.getBlockSize b = r.headD s.endAddress := by
  have hle : b + 12 ≤ r.headD s.endAddress := h.add_le (by cases r <;> simp)
  have he := s.endAddress_lt
  refine State.add_getBlockSize_of_end (h.chain.ne_zero (by simp)) ?_ ?_ hle
  · rw [h.chain.next_eq]
    cases r with
    | nil => rfl
    | cons c r => exact if_neg (h.chain.ne_zero (by simp))
  · cases r with
    | nil => exact he
    | cons c r =>
      have hc : Loose s base ((l ++ [b]) ++ c :: r) := by simpa using h
      exact (Nat.le_of_add_right_le (hc.add_le (x := s.endAddress) (by simp))).trans_lt he

/-- What follows a block lies behind its payload. -/
theorem payload_le (h : Loose s base (l ++ b :: r)) (hx : x ∈ r ++ [s.endAddress]) :
    b + 12 + s.getBlockSize b ≤ x := by
  rw [h.add_getBlockSize]
  cases r with
  | nil => exact (List.mem_singleton.1 hx).ge
  | cons c r =>
    rcases List.mem_cons.1 hx with rfl | hx
    · exact le_rfl
    · have hc : Loose s base ((l ++ [b]) ++ c :: r) := by simpa using h
      exact (Nat.le_add_right c 12).trans (hc.add_le hx)

theorem add_lt (h : Loose s base (l ++ b :: r)) : b + 12 + s.getBlockSize b < 2 ^ 32 :=
  (h.payload_le (x := s.endAddress) (by simp)).trans_lt s.endAddress_lt

/-- The neighbours of an unused block are used. -/
theorem used_left (h : Loose s base (l ++ b :: r)) (hu : s.used b = false) :
    ∀ a ∈ l.getLast?, s.used a = true := fun a ha =>
  ((List.isChain_append.1 h.coalesced).2.2 a ha b rfl).resolve_right (by simp [hu])

theorem used_right (h : Loose s base (l ++ b :: r)) (hu : s.used b = false) :
    ∀ c ∈ r.head?, s.used c = true := fun c hc =>
  ((List.isChain_cons.1 (List.isChain_append.1 h.coalesced).2.1).1 c hc).resolve_left
    (by simp [hu])

/-! ## A request -/

/-- The block `b` is used and no longer listed, and nothing else has changed. -/
structure Taken (s : State) (base : ℕ) (bs : List ℕ) (b : ℕ) (t : State) : Prop
    extends Loose t base bs where
  endAddress_eq : t.endAddress = s.endAddress
  freeList_eq : t.freeList = s.freeList.erase b
  used_self : t.used b = true
  used_eq : ∀ x, x ≠ b → t.used x = s.used x
  next_eq : ∀ x ∈ bs, t.next x = s.next x
  prev_eq : ∀ x ∈ bs, t.prev x = s.prev x

theorem Taken.getBlockSize_eq {t : State} (h : Taken s base bs b t) (hx : x ∈ bs) :
    t.getBlockSize x = s.getBlockSize x :=
  State.getBlockSize_congr (h.next_eq x hx) h.endAddress_eq

/-- An unused block is taken off the list. -/
theorem take (h : Loose s base bs) (hb : b ∈ bs) {v : FCVector ℕ 2048}
    (hv : v.toList = s.freeList.erase b) :
    Taken s base bs b ((s.setFreeBlocks v).setUsed b true) := by
  set s₁ := (s.setFreeBlocks v).setUsed b true with hs₁
  have hnext : ∀ x ∈ bs, s₁.next x = s.next x :=
    fun x hx => State.next_setUsed (h.apart hx hb)
  have hprev : ∀ x ∈ bs, s₁.prev x = s.prev x :=
    fun x hx => State.prev_setUsed (h.apart hx hb)
  have hself : s₁.used b = true := State.used_setUsed_self
  have hother : ∀ x, x ≠ b → s₁.used x = s.used x := fun x hx => State.used_setUsed_of_ne hx
  have hfree : s₁.freeList = s.freeList.erase b := hv
  have hunused : ∀ x, s₁.used x = false → x ≠ b ∧ s.used x = false := fun x hx => by
    have hxb : x ≠ b := fun hxb => absurd hself (by simp [← hxb, hx])
    exact ⟨hxb, (hother x hxb).symm.trans hx⟩
  refine ⟨⟨h.baseNode_eq, h.chain.congr hnext, h.tiles, h.coalesced.mono fun x hx hu => ?_, ?_,
    fun x => ?_, ?_, ?_⟩, rfl, hfree, hself, hother, hnext, hprev⟩
  · by_cases hxb : x = b
    · exact hxb ▸ hself
    · exact (hother x hxb).trans hu
  · rw [hfree]
    exact h.nodup_free.erase b
  · rw [hfree, h.nodup_free.mem_erase_iff, h.mem_free_iff]
    constructor
    · rintro ⟨hxb, hx, hu⟩
      exact ⟨hx, (hother x hxb).trans hu⟩
    · rintro ⟨hx, hu⟩
      exact ⟨(hunused x hu).1, hx, (hunused x hu).2⟩
  · rw [State.FreeSorted, hfree]
    refine (h.sorted.sublist List.erase_sublist).congr fun x hx =>
      State.getBlockSize_congr (hnext x ?_) rfl
    exact ((h.mem_free_iff x).1 (List.mem_of_mem_erase hx)).1
  · refine isChain_imp₂ (fun x y hy hxy _ hu => ?_) h.back h.back
    rw [hprev y hy]
    exact hxy (hunused y hu).2

/-- Where a block can be made of the last bytes of `b`. -/
theorem carve_frame (h : Loose s base (l ++ b :: r)) (hbc : b + 12 ≤ c)
    (hc : c + 12 ≤ b + 12 + s.getBlockSize b) (hx : x ∈ l ++ b :: r) :
    Apart x c ∧ x ≠ c ∧ (s.carve b c).used x = s.used x ∧
      (s.carve b c).prev x = s.prev x ∧ (x ≠ b → (s.carve b c).next x = s.next x) := by
  have hbm : b ∈ l ++ b :: r := by simp
  have hxc : Apart x c ∧ x ≠ c := by
    rw [Apart]
    rcases List.mem_append.1 hx with hx | hx
    · obtain ⟨l, l', rfl⟩ := List.append_of_mem hx
      rw [List.append_assoc, List.cons_append] at h
      have := h.add_le (x := b) (by simp)
      omega
    · rcases List.mem_cons.1 hx with rfl | hx
      · omega
      · have := h.payload_le (List.mem_append_left _ hx)
        omega
  refine ⟨hxc.1, hxc.2, State.used_carve_of_ne (h.apart hx hbm) hxc.1 hxc.2,
    State.prev_carve_of_ne (h.apart hx hbm) hxc.1 hxc.2, fun hxb => ?_⟩
  exact State.next_carve_of_ne (h.apart hx hbm) hxc.1 hxb hxc.2

/-- The last bytes of the block `b`, from `c` on, are a block that is listed, and nothing
    else has changed. -/
structure Carved (s : State) (base : ℕ) (l : List ℕ) (b c : ℕ) (r : List ℕ) (t : State) : Prop
    extends Loose t base (l ++ b :: c :: r) where
  endAddress_eq : t.endAddress = s.endAddress
  freeList_erase : t.freeList.erase c = s.freeList
  used_new : t.used c = false
  used_eq : ∀ x ∈ l ++ b :: r, t.used x = s.used x
  next_new : t.next c = s.next b
  next_eq : ∀ x ∈ l ++ b :: r, x ≠ b → t.next x = s.next x
  prev_eq : ∀ x ∈ l ++ b :: r, t.prev x = s.prev x

/-- The last bytes of a used block become an unused one, which is listed. -/
theorem carve (h : Loose s base (l ++ b :: r)) (hu : s.used b = true) (hbc : b + 12 ≤ c)
    (hc : c + 12 ≤ b + 12 + s.getBlockSize b) (hr : ∀ d ∈ r.head?, s.used d = true)
    (hlt : s.freeBlocks.size < 2048) :
    Carved s base l b c r ((s.carve b c).addFreeBlock c) := by
  have hcb : Apart c b := .inr (.inr hbc)
  have hne : c ≠ b := by omega
  have hb₀ := h.add_lt
  have hnot := h.not_mem
  have hframe : ∀ x ∈ l ++ b :: r, _ := fun x hx => h.carve_frame hbc hc hx
  have hcf : c ∉ l ++ b :: r := fun hx => (hframe c hx).2.1 rfl
  have hbf : b ∉ s.freeList := fun hb => absurd ((h.mem_free_iff b).1 hb).2 (by simp [hu])
  have hnb : (s.carve b c).next b = c := State.next_carve_self (by omega)
  have hnc : (s.carve b c).next c = s.next b := State.next_carve_new hcb hne
  have huc : (s.carve b c).used c = false := State.used_carve_new hcb
  have hpc : (s.carve b c).prev c = b := State.prev_carve_new hcb (by omega)
  have hsize : ∀ x ∈ l ++ r, (s.carve b c).getBlockSize x = s.getBlockSize x := fun x hx => by
    have hx' : x ∈ l ++ b :: r := by grind
    have hxb : x ≠ b := by grind
    exact State.getBlockSize_congr ((hframe x hx').2.2.2.2 hxb) rfl
  have hsorted : (s.carve b c).FreeSorted := h.sorted.congr fun x hx => by
    have hxb : x ≠ b := fun hxb => hbf (hxb ▸ hx)
    have hx' := ((h.mem_free_iff x).1 hx).1
    exact hsize x (by grind)
  obtain ⟨v, heq, hv⟩ := State.addFreeBlock_of_lt hsorted c hlt
  have hperm : v.toList.Perm (c :: s.freeList) := by
    rw [hv]
    exact List.perm_insertIdx _ _ lowerBound_le_length
  have hcs : c ∉ s.freeList := fun hcs => hcf ((h.mem_free_iff c).1 hcs).1
  rw [heq]
  have hused : ∀ x ∈ l ++ b :: r, s.used x = true → (s.carve b c).used x = true :=
    fun x hx hxu => (hframe x hx).2.2.1.trans hxu
  have hsplit := List.isChain_split.1 h.coalesced
  refine ⟨⟨h.baseNode_eq, ?_, ?_, ?_, ?_, fun x => ?_, ?_, ?_⟩, rfl, ?_, huc,
    fun x hx => (hframe x hx).2.2.1, hnc, fun x hx => (hframe x hx).2.2.2.2,
    fun x hx => (hframe x hx).2.2.2.1⟩
  · refine Chain.congr (h.chain.insert (by omega) (fun x hx => ?_) hnb hnc) fun _ _ => rfl
    exact (hframe x (by grind)).2.2.2.2 (by grind)
  · have ht := h.tiles
    rw [List.append_assoc, List.cons_append, List.pairwise_append, List.pairwise_cons] at ht
    change ((l ++ b :: c :: r) ++ [s.endAddress]).Pairwise _
    rw [List.append_assoc, List.cons_append, List.cons_append, List.pairwise_append,
      List.pairwise_cons, List.pairwise_cons]
    refine ⟨ht.1, ⟨fun x hx => ?_, fun x hx => hc.trans (h.payload_le hx), ht.2.1.2⟩,
      fun x hx y hy => ?_⟩
    · rcases List.mem_cons.1 hx with rfl | hx
      · exact hbc
      · exact ht.2.1.1 x hx
    · have hxb := ht.2.2 x hx b List.mem_cons_self
      rcases List.mem_cons.1 hy with rfl | hy
      · exact hxb
      · rcases List.mem_cons.1 hy with rfl | hy
        · omega
        · exact ht.2.2 x hx y (List.mem_cons_of_mem _ hy)
  · refine List.isChain_split.2 ⟨Coalesced.mono hsplit.1 fun x hx => hused x (by grind), ?_⟩
    refine List.isChain_cons_cons.2 ⟨.inl (hused b (by simp) hu), List.isChain_cons.2 ⟨?_, ?_⟩⟩
    · exact fun d hd => .inr (hused d (by simp [List.mem_of_mem_head? hd]) (hr d hd))
    · exact Coalesced.mono (List.isChain_cons.1 hsplit.2).2 fun x hx => hused x (by simp [hx])
  · exact hperm.nodup_iff.2 (List.nodup_cons.2 ⟨hcs, h.nodup_free⟩)
  · have hmem : x ∈ v.toList ↔ _ := hperm.mem_iff
    change x ∈ v.toList ↔ x ∈ l ++ b :: c :: r ∧ (s.carve b c).used x = false
    rw [hmem, List.mem_cons, h.mem_free_iff]
    by_cases hxc : x = c
    · subst hxc
      exact iff_of_true (.inl rfl) ⟨by simp, huc⟩
    · have hmem' : x ∈ l ++ b :: c :: r ↔ x ∈ l ++ b :: r := by simp [hxc]
      rw [hmem', or_iff_right hxc]
      exact and_congr_right fun hx => by rw [(hframe x hx).2.2.1]
  · exact (hv ▸ hsorted.insertIdx c : SortedBy (s.carve b c).getBlockSize v.toList).congr
      fun x _ => State.getBlockSize_setFreeBlocks
  · have hback := List.isChain_cons_split.1 h.back
    refine List.isChain_cons_split.2 ⟨?_, List.isChain_cons_cons.2 ⟨fun _ => hpc, ?_⟩⟩
    · refine isChain_imp₂ (fun x y hy hxy _ hyu => ?_) hback.1 hback.1
      have hy' := hframe y (by grind)
      exact hy'.2.2.2.1.trans (hxy (hy'.2.2.1.symm.trans hyu))
    · -- The block behind the new one is used.
      cases r with
      | nil => exact List.isChain_singleton c
      | cons d r =>
        refine List.isChain_cons_cons.2 ⟨fun hdu => ?_, ?_⟩
        · have hdu' : (s.carve b c).used d = false := hdu
          exact absurd (hused d (by simp) (hr d rfl)) (by simp [hdu'])
        · have hback' := (List.isChain_cons_cons.1 hback.2).2
          refine isChain_imp₂ (fun x y hy hxy _ hyu => ?_) hback' hback'
          have hy' := hframe y (by simp [hy])
          exact hy'.2.2.2.1.trans (hxy (hy'.2.2.1.symm.trans hyu))
  · change v.toList.erase c = s.freeList
    rw [hv]
    exact erase_insertIdx hcs lowerBound_le_length

/-! ## Freeing -/

/-- The block before a block, as its link leads to it. -/
theorem mergePrev_of_used (h : s.prev b = 0 ∨ s.used (s.prev b) = true) :
    s.mergePrev b = (.ok b, s) := by
  rw [State.mergePrev, if_neg]
  rintro ⟨h₀, hu⟩
  rcases h with h | h
  · exact h₀ h
  · exact absurd h (by simp [hu])

/-- The link back from a block leads to a used one, or nowhere. -/
theorem prev_used (hp : s.prev b = l.getLastD 0) (hl : ∀ a ∈ l.getLast?, s.used a = true) :
    s.prev b = 0 ∨ s.used (s.prev b) = true := by
  rw [hp]
  rcases List.eq_nil_or_concat l with rfl | ⟨l, a, rfl⟩
  · exact .inl rfl
  · rw [List.concat_eq_append, List.getLastD_concat]
    exact .inr (hl a (by simp))

/-- A used block is freed whose neighbours are used. -/
theorem free_alone (h : Loose s base (l ++ b :: r)) (hu : s.used b = true)
    (hp : s.prev b = l.getLastD 0) (hl : ∀ a ∈ l.getLast?, s.used a = true)
    (hr : ∀ c ∈ r.head?, s.used c = true) :
    s.free (b + 12) = (.ok (), (s.setUsed b false).addFreeBlock b) := by
  have hlt := h.add_lt
  have hb : b ∈ l ++ b :: r := by simp
  have hnot := h.not_mem
  have hother : ∀ x, x ≠ b → (s.setUsed b false).used x = s.used x :=
    fun x hx => State.used_setUsed_of_ne hx
  have hnext : (s.setUsed b false).mergeNext b = (.ok (), s.setUsed b false) := by
    rw [State.mergeNext, if_neg]
    rw [State.next_setUsed (.inl rfl), h.chain.next_eq]
    rintro ⟨h₀, hcu⟩
    cases r with
    | nil => exact h₀ rfl
    | cons c r =>
      rw [List.headD_cons, hother c (by grind), hr c rfl] at hcu
      exact absurd hcu (by simp)
  have hprev : (s.setUsed b false).mergePrev b = (.ok b, s.setUsed b false) := by
    refine mergePrev_of_used (prev_used (l := l) ?_ fun a ha => ?_)
    · rw [State.prev_setUsed (.inl rfl), hp]
    · have hal := List.mem_of_mem_getLast? ha
      rw [hother a (by grind), hl a ha]
  rw [State.free, if_neg (by omega), sizeofBlockHeader, u32Sub_of_le (by omega) (by omega),
    Nat.add_sub_cancel]
  simp only [hu, if_true, hnext, hprev]

/-- What holds when the block `c` has become a part of the block `b`, which is unused. -/
structure Joined (s : State) (b c : ℕ) (v : FCVector ℕ 2048) (bs : List ℕ) (t : State) :
    Prop where
  baseNode_eq : t.baseNode = s.baseNode
  endAddress_eq : t.endAddress = s.endAddress
  freeBlocks_eq : t.freeBlocks = v
  used_self : t.used b = false
  used_eq : ∀ x ∈ bs, x ≠ b → t.used x = s.used x
  next_self : t.next b = s.next c
  next_eq : ∀ x ∈ bs, x ≠ b → t.next x = s.next x
  prev_eq : ∀ x ∈ bs, x ≠ s.next c → t.prev x = s.prev x
  prev_next : s.next c ≠ 0 → t.prev (s.next c) = b

theorem joined (h : Loose s base (l ++ b :: c :: r)) (v : FCVector ℕ 2048) :
    Joined s b c v (l ++ b :: c :: r) (((s.setUsed b false).setFreeBlocks v).absorb b c) := by
  set t := (s.setUsed b false).setFreeBlocks v with ht
  have hlt := h.add_lt
  have hb : b ∈ l ++ b :: c :: r := by simp
  have hcb : Apart c b := h.apart (by simp) hb
  have hnc : t.next c = s.next c := State.next_setUsed hcb
  have hd : s.next c ≠ 0 → s.next c ∈ l ++ b :: c :: r := fun h₀ => by
    have hc : Loose s base ((l ++ [b]) ++ c :: r) := by simpa using h
    rw [hc.chain.next_eq] at h₀ ⊢
    cases r with
    | nil => exact absurd rfl h₀
    | cons d r => simp
  have hapart : ∀ x ∈ l ++ b :: c :: r, t.next c ≠ 0 → Apart x (t.next c) := fun x hx h₀ => by
    rw [hnc] at h₀ ⊢
    exact h.apart hx (hd h₀)
  have hused : ∀ x ∈ l ++ b :: c :: r, (t.absorb b c).used x = t.used x := fun x hx =>
    State.used_absorb (h.apart hx hb) (hapart x hx)
  have hnext : ∀ x ∈ l ++ b :: c :: r,
      (t.absorb b c).next x = if x = b then s.next c else t.next x := fun x hx => by
    rw [State.next_absorb (h.apart hx hb) (hapart x hx), hnc]
  have hinfo : (t.absorb b c).memoryInfo = t.memoryInfo := State.memoryInfo_absorb
  refine ⟨(congrArg MemoryInfo.baseNode hinfo).trans rfl,
    (congrArg MemoryInfo.endAddress hinfo).trans rfl,
    congrArg MemoryInfo.freeBlocks hinfo, ?_, fun x hx hxb => ?_, ?_, fun x hx hxb => ?_,
    fun x hx hxn => ?_, fun h₀ => ?_⟩
  · rw [hused b hb]
    exact State.used_setUsed_self
  · rw [hused x hx]
    exact State.used_setUsed_of_ne hxb
  · rw [hnext b hb, if_pos rfl]
  · rw [hnext x hx, if_neg hxb]
    exact State.next_setUsed (h.apart hx hb)
  · rw [State.prev_absorb_of_ne (h.apart hx hb) (hapart x hx) (by rwa [hnc])]
    exact State.prev_setUsed (h.apart hx hb)
  · have := State.prev_absorb_next (s := t) (b := b) (c := c) (by omega) (by rwa [hnc])
    rwa [hnc] at this

/-- A used block is freed with an unused one behind it. -/
theorem free_next (h : Loose s base (l ++ b :: c :: r)) (hu : s.used b = true)
    (hp : s.prev b = l.getLastD 0) (hl : ∀ a ∈ l.getLast?, s.used a = true)
    (hcu : s.used c = false) : ∃ v : FCVector ℕ 2048, v.toList = s.freeList.erase c ∧
      s.free (b + 12) =
        (.ok (), (((s.setUsed b false).setFreeBlocks v).absorb b c).addFreeBlock b) := by
  have hlt := h.add_lt
  have hb : b ∈ l ++ b :: c :: r := by simp
  have hc : c ∈ l ++ b :: c :: r := by simp
  have hnot := h.not_mem
  have hother : ∀ x, x ≠ b → (s.setUsed b false).used x = s.used x :=
    fun x hx => State.used_setUsed_of_ne hx
  have hnb : (s.setUsed b false).next b = c := by
    rw [State.next_setUsed (.inl rfl), h.chain.next_eq]
    rfl
  have hsorted : (s.setUsed b false).FreeSorted := h.sorted.congr fun x hx =>
    State.getBlockSize_setUsed (h.apart ((h.mem_free_iff x).1 hx).1 hb)
  have hcf : c ∈ (s.setUsed b false).freeList := (h.mem_free_iff c).2 ⟨hc, hcu⟩
  obtain ⟨v, hrem, hv⟩ := State.removeFreeBlock_of_mem hsorted hcf
  refine ⟨v, hv, ?_⟩
  have hnext : (s.setUsed b false).mergeNext b =
      (.ok (), ((s.setUsed b false).setFreeBlocks v).absorb b c) := by
    have hcond : (s.setUsed b false).next b ≠ 0 ∧
        (s.setUsed b false).used ((s.setUsed b false).next b) = false := by
      rw [hnb, hother c (by grind)]
      exact ⟨h.chain.ne_zero hc, hcu⟩
    rw [State.mergeNext, if_pos hcond, hnb, hrem]
    exact State.mergeNext_eq (s := (s.setUsed b false).setFreeBlocks v) hnb
  have hprev : (((s.setUsed b false).setFreeBlocks v).absorb b c).mergePrev b =
      (.ok b, ((s.setUsed b false).setFreeBlocks v).absorb b c) := by
    have hj := h.joined v
    have hbn : b ≠ s.next c := fun hbn => by
      have hc' : Loose s base ((l ++ [b]) ++ c :: r) := by simpa using h
      rw [hc'.chain.next_eq] at hbn
      cases r with
      | nil => exact h.chain.ne_zero hb hbn
      | cons d r => exact hnot.2 (by simp [show b = d from hbn])
    refine mergePrev_of_used (prev_used (l := l) ?_ fun a ha => ?_)
    · rw [hj.prev_eq b hb hbn, hp]
    · have hal := List.mem_of_mem_getLast? ha
      rw [hj.used_eq a (by simp [hal]) (by grind), hl a ha]
  rw [State.free, if_neg (by omega), sizeofBlockHeader, u32Sub_of_le (by omega) (by omega),
    Nat.add_sub_cancel]
  simp only [hu, if_true, hnext, hprev]

/-- Listing a block again that was at a lower bound of the list. -/
theorem addFreeBlock_restores {t : State} {size : ℕ} (h : Loose s base bs)
    (hi : lowerBound s.getBlockSize s.freeList size < s.freeList.length)
    (hb : s.freeList[lowerBound s.getBlockSize s.freeList size] = b)
    (hbase : t.baseNode = s.baseNode) (hend : t.endAddress = s.endAddress)
    (hfree : t.freeList = s.freeList.erase b) (hnext : ∀ x ∈ bs, t.next x = s.next x)
    (hused : ∀ x ∈ bs, t.used x = s.used x)
    (hback : (0 :: bs).IsChain fun x y => t.prev y = s.prev y ∨ t.prev y = x) :
    Restored s bs (t.addFreeBlock b) := by
  have hbf : b ∈ s.freeList := hb ▸ List.getElem_mem hi
  have hsize : ∀ x ∈ s.freeList, t.getBlockSize x = s.getBlockSize x := fun x hx =>
    State.getBlockSize_congr (hnext x ((h.mem_free_iff x).1 hx).1) hend
  have hsorted : t.FreeSorted := by
    rw [State.FreeSorted, hfree]
    exact (h.sorted.sublist List.erase_sublist).congr fun x hx =>
      hsize x (List.mem_of_mem_erase hx)
  have hlt : t.freeBlocks.size < 2048 := State.size_lt_of_erase hbf hfree
  obtain ⟨v, heq, hv⟩ := State.addFreeBlock_of_lt hsorted b hlt
  have hlb : lowerBound t.getBlockSize (s.freeList.erase b) (t.getBlockSize b) =
      lowerBound s.getBlockSize (s.freeList.erase b) (s.getBlockSize b) := by
    rw [lowerBound, lowerBound, hsize b hbf]
    exact List.countP_congr fun x hx => by rw [hsize x (List.mem_of_mem_erase hx)]
  rw [heq]
  refine ⟨hbase, hend, ?_, hnext, hused, hback⟩
  change v.toList = s.freeList
  rw [hv, hfree, hlb]
  exact h.sorted.insertIdx_erase h.nodup_free hi hb

/-! ## A request and its `free` -/

/-- The state in which the block `b` serves a request, and what is to be said of it: what
    was allocated stays so, and when it is restored, freeing `b` restores the heap. -/
structure Granted (s : State) (base : ℕ) (bs : List ℕ) (p size : ℕ) (s' : State)
    (bs' : List ℕ) : Prop where
  loose : Loose s' base bs'
  backed : Session.Backed s' bs' (p, getSmallestGteMultiple size 4)
  kept : ∀ q, Session.Backed s bs q → Session.Backed s' bs' q
  free : ∀ s'', Restored s' bs' s'' → ∃ t, s''.free p = (.ok (), t) ∧ Restored s bs t

/-- What is freed again had been taken as a whole. -/
theorem Taken.granted {t : State} (h : Loose s base bs) (ht : Taken s base bs b t)
    (hbf : b ∈ s.freeList) (hle : getSmallestGteMultiple size 4 ≤ s.getBlockSize b)
    (hi : lowerBound s.getBlockSize s.freeList (getSmallestGteMultiple size 4) <
      s.freeList.length)
    (hget : s.freeList[lowerBound s.getBlockSize s.freeList
      (getSmallestGteMultiple size 4)] = b) :
    Granted s base bs (b + 12) size t bs := by
  obtain ⟨hb, hbu⟩ := (h.mem_free_iff b).1 hbf
  refine ⟨ht.toLoose, ⟨b, rfl, hb, ?_, ?_⟩, fun q hq => ?_, fun s'' hr => ?_⟩
  · rw [ht.freeList_eq]
    exact h.nodup_free.not_mem_erase
  · rw [ht.getBlockSize_eq hb]
    exact hle
  · refine hq.of_kept fun x _ hx hxf => ⟨hx, ?_, (ht.getBlockSize_eq hx).ge⟩
    rw [ht.freeList_eq]
    exact fun hxe => hxf (List.mem_of_mem_erase hxe)
  · obtain ⟨l, r, rfl⟩ := List.append_of_mem hb
    have hnot := h.not_mem
    have h'' := ht.toLoose.congr hr
    have hused : ∀ x ∈ l ++ b :: r, x ≠ b → s''.used x = s.used x := fun x hx hxb =>
      (hr.used_eq x hx).trans (ht.used_eq x hxb)
    have hp : s''.prev b = l.getLastD 0 := by
      rcases isChain_getLastD hr.back with hp | hp
      · rw [hp, ht.prev_eq b hb]
        exact isChain_getLastD h.back hbu
      · exact hp
    have hfree := h''.free_alone ((hr.used_eq b hb).trans ht.used_self) hp
      (fun a ha => by
        have hal := List.mem_of_mem_getLast? ha
        rw [hused a (by simp [hal]) (by grind), h.used_left hbu a ha])
      (fun d hd => by
        have hdr := List.mem_of_mem_head? hd
        rw [hused d (by simp [hdr]) (by grind), h.used_right hbu d hd])
    refine ⟨_, hfree, h.addFreeBlock_restores hi hget ?_ ?_ ?_ (fun x hx => ?_)
      (fun x hx => ?_) ?_⟩
    · exact hr.baseNode_eq.trans (ht.baseNode_eq.trans h.baseNode_eq.symm)
    · exact hr.endAddress_eq.trans ht.endAddress_eq
    · exact hr.freeList_eq.trans ht.freeList_eq
    · rw [State.next_setUsed (h.apart hx hb), hr.next_eq x hx, ht.next_eq x hx]
    · by_cases hxb : x = b
      · rw [hxb, State.used_setUsed_self, hbu]
      · rw [State.used_setUsed_of_ne hxb, hused x hx hxb]
    · refine isChain_imp₂ (fun x y hy hxy _ => ?_) hr.back hr.back
      rw [State.prev_setUsed (h.apart hy hb), ← ht.prev_eq y hy]
      exact hxy

/-- What is freed again had been split: its end becomes a part of it again. -/
theorem Carved.granted {t u : State} (h : Loose s base (l ++ b :: r))
    (ht : Taken s base (l ++ b :: r) b t) (hc : Carved t base l b c r u) (hbf : b ∈ s.freeList)
    (hbc : c = b + 12 + getSmallestGteMultiple size 4)
    (hi : lowerBound s.getBlockSize s.freeList (getSmallestGteMultiple size 4) <
      s.freeList.length)
    (hget : s.freeList[lowerBound s.getBlockSize s.freeList
      (getSmallestGteMultiple size 4)] = b) :
    Granted s base (l ++ b :: r) (b + 12) size u (l ++ b :: c :: r) := by
  obtain ⟨hb, hbu⟩ := (h.mem_free_iff b).1 hbf
  have hnot := h.not_mem
  have hub : u.used b = true := (hc.used_eq b hb).trans ht.used_self
  have hused : ∀ x ∈ l ++ b :: r, x ≠ b → u.used x = s.used x := fun x hx hxb =>
    (hc.used_eq x hx).trans (ht.used_eq x hxb)
  have hnext : ∀ x ∈ l ++ b :: r, x ≠ b → u.next x = s.next x := fun x hx hxb =>
    (hc.next_eq x hx hxb).trans (ht.next_eq x hx)
  have hprev : ∀ x ∈ l ++ b :: r, u.prev x = s.prev x := fun x hx =>
    (hc.prev_eq x hx).trans (ht.prev_eq x hx)
  have hend : u.endAddress = s.endAddress := hc.endAddress_eq.trans ht.endAddress_eq
  refine ⟨hc.toLoose, ⟨b, rfl, by simp, fun hf => ?_, ?_⟩, fun q hq => ?_, fun s'' hr => ?_⟩
  · exact absurd ((hc.mem_free_iff b).1 hf).2 (by simp [hub])
  · have hsize := hc.toLoose.add_getBlockSize
    rw [List.headD_cons, hbc] at hsize
    omega
  · refine hq.of_kept fun x _ hx hxf => ?_
    have hxb : x ≠ b := fun hxb => hxf (hxb ▸ hbf)
    refine ⟨by grind, fun hf => ?_, (State.getBlockSize_congr (hnext x hx hxb) hend).ge⟩
    have hxu := ((hc.mem_free_iff x).1 hf).2
    rw [hused x hx hxb] at hxu
    exact hxf ((h.mem_free_iff x).2 ⟨hx, hxu⟩)
  · have h'' := hc.toLoose.congr hr
    have hmem : ∀ x ∈ l ++ b :: r, x ∈ l ++ b :: c :: r := fun x hx => by grind
    have hp : s''.prev b = l.getLastD 0 := by
      rcases isChain_getLastD hr.back with hp | hp
      · rw [hp, hprev b hb]
        exact isChain_getLastD h.back hbu
      · exact hp
    obtain ⟨v, hv, hfree⟩ := h''.free_next ((hr.used_eq b (by simp)).trans hub) hp
      (fun a ha => by
        have hal := List.mem_of_mem_getLast? ha
        rw [hr.used_eq a (by simp [hal]), hused a (by simp [hal]) (by grind),
          h.used_left hbu a ha])
      ((hr.used_eq c (by simp)).trans hc.used_new)
    have hj := h''.joined v
    have hcn : s''.next c = s.next b := by
      rw [hr.next_eq c (by simp), hc.next_new, ht.next_eq b hb]
    refine ⟨_, hfree, h.addFreeBlock_restores hi hget ?_ ?_ ?_ (fun x hx => ?_)
      (fun x hx => ?_) ?_⟩
    · rw [hj.baseNode_eq, hr.baseNode_eq, hc.baseNode_eq, h.baseNode_eq]
    · rw [hj.endAddress_eq, hr.endAddress_eq, hend]
    · rw [State.freeList, hj.freeBlocks_eq, hv, hr.freeList_eq, hc.freeList_erase, ht.freeList_eq]
    · by_cases hxb : x = b
      · rw [hxb, hj.next_self, hcn]
      · rw [hj.next_eq x (hmem x hx) hxb, hr.next_eq x (hmem x hx), hnext x hx hxb]
    · by_cases hxb : x = b
      · rw [hxb, hj.used_self, hbu]
      · rw [hj.used_eq x (hmem x hx) hxb, hr.used_eq x (hmem x hx), hused x hx hxb]
    · -- Of the links back, only that of the block behind is set, to `b`.
      set w := ((s''.setUsed b false).setFreeBlocks v).absorb b c with hw
      have hkeep : ∀ x, ∀ y ∈ l ++ b :: r, y ≠ s.next b →
          (s''.prev y = u.prev y ∨ s''.prev y = x) → w.prev y = s.prev y ∨ w.prev y = x :=
        fun x y hy hyn hxy => by
          rw [← hprev y hy, hj.prev_eq y (hmem y hy) (hcn.symm ▸ hyn)]
          exact hxy
      have hback := List.isChain_cons_split.1 hr.back
      refine List.isChain_cons_split.2 ⟨?_, ?_⟩
      · refine isChain_imp₂ (fun x y hy hxy _ => hkeep x y (by grind) ?_ hxy) hback.1 hback.1
        rw [h.chain.next_eq]
        cases r with
        | nil => exact h.chain.ne_zero (by grind)
        | cons d r =>
          have hd : Loose s base ((l ++ [b]) ++ d :: r) := by simpa using h
          rw [List.headD_cons]
          exact fun hyd => hd.not_mem.1 (hyd ▸ hy)
      · cases r with
        | nil => exact List.isChain_singleton b
        | cons d r =>
          have hd : Loose s base ((l ++ [b]) ++ d :: r) := by simpa using h
          have hnb : s.next b = d := h.chain.next_eq
          have hrest := (List.isChain_cons_cons.1 (List.isChain_cons_cons.1 hback.2).2).2
          refine List.isChain_cons_cons.2 ⟨.inr ?_, ?_⟩
          · have hwn := hj.prev_next
            rw [hcn, hnb] at hwn
            exact hwn (h.chain.ne_zero (by simp))
          · refine isChain_imp₂ (fun x y hy hxy _ => hkeep x y (by simp [hy]) ?_ hxy) hrest hrest
            rw [hnb]
            exact fun hyd => hd.not_mem.2 (hyd ▸ hy)

/-- A request that succeeds. -/
theorem malloc {p : ℕ} (h : Loose s base bs) (hm : s.malloc size = (.ok p, s')) :
    ∃ bs', Granted s base bs p size s' bs' := by
  cases hblock : s.mallocBlock size with
  | none =>
    obtain ⟨e, he⟩ := State.malloc_of_none hblock
    rw [he] at hm
    exact absurd (congrArg Prod.fst hm) (by simp)
  | some b =>
    obtain ⟨hbf, hle, v, hv, heq⟩ := State.malloc_of_some h.sorted h.nodup_free hblock
    obtain ⟨-, -, hi, hget⟩ := State.mallocBlock_eq_some_iff.1 hblock
    rw [State.findFirstGteFreeBlock_eq h.sorted] at hi hget
    have hi' := hi
    rw [← FCVector.length_toList] at hi'
    rw [← FCVector.getElem_toList _ hi'] at hget
    obtain ⟨hb, hbu⟩ := (h.mem_free_iff b).1 hbf
    obtain ⟨l, r, rfl⟩ := List.append_of_mem hb
    have hlt := h.add_lt
    rw [sizeofBlockHeader, u32_of_lt (by omega)] at heq
    rw [heq] at hm
    obtain ⟨hp, rfl⟩ := Prod.mk.inj hm
    obtain rfl : b + 12 = p := Except.ok.inj hp
    have ht := h.take hb hv
    have hsize := ht.getBlockSize_eq hb
    obtain ⟨p, hp⟩ : ∃ p, p = getSmallestGteMultiple size 4 := ⟨_, rfl⟩
    rw [← hp] at hle heq ⊢
    have hpb : p ≤ ((s.setFreeBlocks v).setUsed b true).getBlockSize b := by
      rw [hsize]
      exact hle
    by_cases hsplit : sizeofBlockHeader <
        u32Sub (((s.setFreeBlocks v).setUsed b true).getBlockSize b) p
    · have hroom := hsplit
      rw [sizeofBlockHeader, u32Sub_of_le (by omega) hpb] at hroom
      have hr : ∀ d ∈ r.head?, ((s.setFreeBlocks v).setUsed b true).used d = true :=
        fun d hd => by
          have hdr := List.mem_of_mem_head? hd
          have hnot := h.not_mem
          rw [ht.used_eq d (by grind), h.used_right hbu d hd]
      have hc := ht.toLoose.carve (c := b + 12 + p) ht.used_self (by omega) (by omega) hr
        (State.size_lt_of_erase hbf hv)
      rw [State.split_of_lt hsplit, sizeofBlockHeader, u32_of_lt (by omega)]
      exact ⟨_, Carved.granted h ht hc hbf (congrArg (b + 12 + ·) hp) hi' hget⟩
    · rw [State.split_of_le hsplit]
      exact ⟨_, Taken.granted h ht hbf (hp ▸ hle) hi' hget⟩

end Loose

/-! ## Runs -/

/-- A write into an allocation touches no header. -/
theorem Loose.writeByte {q : ℕ × ℕ} {offset : ℕ} (h : Loose s base bs)
    (hq : Session.Backed s bs q) (ho : offset < q.2) (v : Byte) :
    Restored s bs (s.writeByte (q.1 + offset) v) := by
  obtain ⟨b, hqb, hb, -, hle⟩ := hq
  have hout : ∀ x ∈ bs, q.1 + offset < x ∨ x + 12 ≤ q.1 + offset := fun x hx => by
    obtain ⟨l, r, rfl⟩ := List.append_of_mem hb
    rcases List.mem_append.1 hx with hx | hx
    · obtain ⟨l, l', rfl⟩ := List.append_of_mem hx
      rw [List.append_assoc, List.cons_append] at h
      have := h.add_le (x := b) (by simp)
      omega
    · rcases List.mem_cons.1 hx with rfl | hx
      · omega
      · have := h.payload_le (List.mem_append_left _ hx)
        omega
  refine ⟨rfl, rfl, rfl, fun x hx => State.next_writeByte (hout x hx),
    fun x hx => State.used_writeByte (hout x hx), ?_⟩
  exact isChain_imp₂ (fun x y hy _ _ => .inl (State.prev_writeByte (hout y hy))) h.back h.back

theorem Restored.backed {q : ℕ × ℕ} (h : Restored s bs s') (hq : Session.Backed s bs q) :
    Session.Backed s' bs q :=
  hq.of_kept fun x _ hx hxf => ⟨hx, by rw [h.freeList_eq]; exact hxf, (h.getBlockSize_eq hx).ge⟩

/-- A program in scopes restores the heap. By induction on the program; the heap behind a
    scope is the one before it, restored. -/
theorem Scopes.run_restored (program : Scopes) {live : List (ℕ × ℕ)} (h : Loose s base bs)
    (hlive : ∀ q ∈ live, Session.Backed s bs q) :
    ∃ s', program.run live s = some s' ∧ Restored s bs s' := by
  induction program generalizing s bs live with
  | done => exact ⟨s, rfl, .refl s bs⟩
  | alloc size body rest ihbody ihrest =>
    rw [run]
    cases hm : s.malloc size with
    | mk res s₁ =>
      cases res with
      | error e =>
        obtain rfl : s = s₁ := by
          cases hblock : s.mallocBlock size with
          | none =>
            obtain ⟨e', he⟩ := State.malloc_of_none hblock
            exact congrArg Prod.snd (he.symm.trans hm)
          | some b =>
            obtain ⟨-, -, v, -, heq⟩ := State.malloc_of_some h.sorted h.nodup_free hblock
            exact absurd (congrArg Prod.fst (heq.symm.trans hm)) (by simp)
        exact ihrest h hlive
      | ok p =>
        obtain ⟨bs₁, hg⟩ := h.malloc hm
        have hlive₁ : ∀ q ∈ (p, getSmallestGteMultiple size 4) :: live,
            Session.Backed s₁ bs₁ q :=
          List.forall_mem_cons.2 ⟨hg.backed, fun q hq => hg.kept q (hlive q hq)⟩
        obtain ⟨s₂, hbody, hr₂⟩ := ihbody hg.loose hlive₁
        obtain ⟨s₃, hfree, hr₃⟩ := hg.free s₂ hr₂
        obtain ⟨s₄, hrest, hr₄⟩ := ihrest (h.congr hr₃) fun q hq => hr₃.backed (hlive q hq)
        refine ⟨s₄, ?_, hr₃.trans hr₄⟩
        simp only [hbody, Option.bind_some, hfree, hrest]
  | write i offset v rest ih =>
    rw [run]
    cases hq : (live[i]?).filter fun q => offset < q.2 with
    | none => exact ih h hlive
    | some q =>
      obtain ⟨hi, ho⟩ := Option.filter_eq_some_iff.1 hq
      have hr := h.writeByte (hlive q (List.mem_of_getElem? hi)) (of_decide_eq_true ho) v
      obtain ⟨s', hrun, hr'⟩ := ih (h.congr hr) fun q hq => hr.backed (hlive q hq)
      exact ⟨s', hrun, hr.trans hr'⟩

theorem WellFormedOf.loose (hbase : 0 < base) (h : WellFormedOf s base bs) :
    Loose s base bs where
  baseNode_eq := h.baseNode_eq
  chain := h.baseNode_eq ▸ h.chain
  tiles := ((wellFormedOf_iff hbase).1 h).1.tiles
  coalesced := h.coalesced
  nodup_free := h.nodup_free
  mem_free_iff := h.mem_free_iff
  sorted := h.sorted
  back := by
    have hlinked := ((wellFormedOf_iff hbase).1 h).1.linked
    rw [Linked, ← List.cons_append] at hlinked
    refine (List.isChain_append.1 hlinked).1.imp_of_mem_tail_imp fun x y _ hy hxy _ => ?_
    exact hxy.2 ((h.baseNode_eq ▸ h.chain : Chain s base bs).ne_zero hy)

/-- In a well-formed heap, all the links back are right, and stay so. -/
theorem WellFormedOf.restored (hbase : 0 < base) (h : WellFormedOf s base bs)
    (hr : Restored s bs s') : WellFormedOf s' base bs ∧ ∀ b ∈ bs, s'.prev b = s.prev b := by
  have hh := ((wellFormedOf_iff hbase).1 h).1
  have hl := (h.loose hbase).congr hr
  have hprev : ∀ b ∈ bs, s'.prev b = s.prev b := fun b hb => by
    obtain ⟨l, r, rfl⟩ := List.append_of_mem hb
    rcases isChain_getLastD hr.back with hp | hp
    · exact hp
    · rw [hp, hh.prev_eq]
  have hbase' : base ∈ bs := List.mem_of_mem_head? hh.head_eq
  refine ⟨⟨hl.baseNode_eq, hl.baseNode_eq.symm ▸ hl.chain, hl.chain.tiles hl.tiles, ?_,
    fun b hb hn => ?_, hl.coalesced, hl.nodup_free, hl.mem_free_iff, hl.sorted⟩, hprev⟩
  · rw [hl.baseNode_eq, hprev base hbase', ← h.baseNode_eq]
    exact h.prev_base
  · rw [hr.next_eq b hb] at hn ⊢
    rw [hprev _ (hh.next_mem hb hn), h.prev_next b hb hn]

/-- Whatever a program in scopes requests, and whatever it writes, none of its frees fails,
    and a well-formed heap is behind it as before it, with the same headers and the same
    list. -/
theorem Scopes.run_restores {kernelEnd : ℕ} (program : Scopes)
    (h : WellFormedOf s (heapBaseAddress kernelEnd) bs) :
    ∃ s', program.run [] s = some s' ∧ WellFormedOf s' (heapBaseAddress kernelEnd) bs ∧
      s'.endAddress = s.endAddress ∧ s'.freeList = s.freeList ∧
      ∀ b ∈ bs, s'.prev b = s.prev b ∧ s'.next b = s.next b ∧ s'.used b = s.used b := by
  have hpos := heapBaseAddress_pos kernelEnd
  have hnone : ∀ q ∈ [], Session.Backed s bs q := fun q hq => absurd hq List.not_mem_nil
  obtain ⟨s', hrun, hr⟩ := program.run_restored (h.loose hpos) hnone
  obtain ⟨h', hprev⟩ := h.restored hpos hr
  exact ⟨s', hrun, h', hr.endAddress_eq, hr.freeList_eq,
    fun b hb => ⟨hprev b hb, hr.next_eq b hb, hr.used_eq b hb⟩⟩

/-- The request for 8 bytes splits a block inside the heap, and the one for 4 bytes is
    served with what is left of it. -/
def sampleScopes : Scopes := .alloc 8 (.alloc 4 (.write 1 7 0xff .done) .done) .done

theorem Scopes.run_restores_sample : sampleHole.SplitsInside 8 ∧
    ∃ s', sampleScopes.run [] sampleHole = some s' ∧
      WellFormedOf s' (heapBaseAddress sampleKernelEnd) [0x102000, 0x102034, 0x102044] ∧
      s'.endAddress = sampleHole.endAddress ∧ s'.freeList = sampleHole.freeList ∧
      ∀ b ∈ [0x102000, 0x102034, 0x102044], s'.prev b = sampleHole.prev b ∧
        s'.next b = sampleHole.next b ∧ s'.used b = sampleHole.used b :=
  ⟨by decide +kernel, run_restores sampleScopes wellFormedOf_sampleHole⟩

end KessokuOS.MemoryManager
