import Mathlib.Data.List.Count
import Mathlib.Data.List.InsertIdx
import Mathlib.Data.List.Nodup
import Mathlib.Order.Bounds.Basic
import Mathlib.Order.Lattice

/-!
# Lists sorted by a key

A list sorted by a key splits, at every value `t`, into the elements whose key
is below `t` and the others. The number of the former is the index of the first
of the latter, the `lowerBound` of `t`. Inserting an element at the lower bound
of its key keeps the list sorted (`SortedBy.insertIdx`), and undoes taking it out of a lower
bound (`SortedBy.insertIdx_erase`).
-/

namespace KessokuOS

variable {α β : Type*} [LinearOrder β]

/-- The list is sorted by `key`, in non-decreasing order. -/
def SortedBy (key : α → β) (l : List α) : Prop := l.Pairwise fun x y => key x ≤ key y

/-- The number of the elements whose key is below `t`. -/
def lowerBound (key : α → β) (l : List α) (t : β) : ℕ := l.countP fun x => key x < t

variable {key : α → β} {l : List α} {t : β}

theorem lowerBound_le_length : lowerBound key l t ≤ l.length := List.countP_le_length

@[simp] theorem lowerBound_nil : lowerBound key [] t = 0 := rfl

/-- Not all keys are below `t` when one of them is not. -/
theorem lowerBound_lt_length_iff : lowerBound key l t < l.length ↔ ∃ x ∈ l, t ≤ key x := by
  rw [lt_iff_le_and_ne, lowerBound, Ne, List.countP_eq_length]
  simp only [decide_eq_true_eq, not_forall, not_lt, exists_prop]
  exact and_iff_right lowerBound_le_length

theorem lowerBound_cons_of_lt {x : α} (h : key x < t) :
    lowerBound key (x :: l) t = lowerBound key l t + 1 :=
  List.countP_cons_of_pos (by simpa using h)

/-- Nothing is below `t` in a sorted list whose first element is not. -/
theorem SortedBy.lowerBound_cons_of_le {x : α} (h : SortedBy key (x :: l)) (hx : t ≤ key x) :
    lowerBound key (x :: l) t = 0 := by
  refine List.countP_eq_zero.2 fun y hy => ?_
  have hy' : key x ≤ key y := by
    rcases List.mem_cons.1 hy with rfl | hy
    · exact le_rfl
    · exact (List.pairwise_cons.1 h).1 y hy
  simpa using hx.trans hy'

/-- The indices below the lower bound of `t` are those of the keys below `t`. -/
theorem SortedBy.lt_lowerBound_iff (h : SortedBy key l) {i : ℕ} (hi : i < l.length) :
    i < lowerBound key l t ↔ key l[i] < t := by
  induction l generalizing i with
  | nil => exact absurd hi (Nat.not_lt_zero i)
  | cons x l ih =>
    by_cases hx : key x < t
    · rw [lowerBound_cons_of_lt hx]
      cases i with
      | zero => exact ⟨fun _ => hx, fun _ => Nat.succ_pos _⟩
      | succ i =>
        rw [Nat.succ_lt_succ_iff]
        exact ih (List.pairwise_cons.1 h).2 (Nat.lt_of_succ_lt_succ hi)
    · rw [h.lowerBound_cons_of_le (not_lt.1 hx)]
      refine ⟨fun h₀ => absurd h₀ (Nat.not_lt_zero i), fun hlt => absurd hlt (not_lt.2 ?_)⟩
      have hle : key x ≤ key (x :: l)[i] := by
        cases i with
        | zero => exact le_rfl
        | succ i => exact (List.pairwise_cons.1 h).1 _ (List.getElem_mem _)
      exact (not_lt.1 hx).trans hle

/-- The lower bound of `t` is the least index at which the key is not below `t`, or there is
    no key. -/
theorem SortedBy.isLeast_lowerBound (h : SortedBy key l) :
    IsLeast {i | ∀ hi : i < l.length, t ≤ key l[i]} (lowerBound key l t) := by
  refine ⟨fun hi => not_lt.1 fun hlt => ?_, fun i hi => not_lt.1 fun hlt => ?_⟩
  · exact lt_irrefl _ ((h.lt_lowerBound_iff hi).2 hlt)
  · have hi' := hlt.trans_le lowerBound_le_length
    exact not_le.2 ((h.lt_lowerBound_iff hi').1 hlt) (hi hi')

/-- The element at the lower bound of `t` has the least key among those which are
    not below `t`. -/
theorem SortedBy.getElem_lowerBound_le (h : SortedBy key l) (hi : lowerBound key l t < l.length)
    {x : α} (hx : x ∈ l) (ht : t ≤ key x) : key l[lowerBound key l t] ≤ key x := by
  obtain ⟨j, hj, rfl⟩ := List.getElem_of_mem hx
  have hle : lowerBound key l t ≤ j := not_lt.1 fun hlt =>
    absurd ((h.lt_lowerBound_iff hj).1 hlt) (not_lt.2 ht)
  rcases hle.lt_or_eq with hlt | heq
  · exact List.pairwise_iff_getElem.1 h _ j hi hj hlt
  · simp only [heq, le_refl]

/-- Inserting an element at the lower bound of its key keeps the list sorted. -/
theorem SortedBy.insertIdx (h : SortedBy key l) (x : α) :
    SortedBy key (l.insertIdx (lowerBound key l (key x)) x) := by
  induction l with
  | nil => exact List.pairwise_singleton _ _
  | cons y l ih =>
    have hy := List.pairwise_cons.1 h
    by_cases hlt : key y < key x
    · rw [lowerBound_cons_of_lt hlt, List.insertIdx_succ_cons]
      refine List.pairwise_cons.2 ⟨fun z hz => ?_, ih hy.2⟩
      rcases (List.mem_insertIdx lowerBound_le_length).1 hz with rfl | hz
      · exact hlt.le
      · exact hy.1 z hz
    · rw [h.lowerBound_cons_of_le (not_lt.1 hlt), List.insertIdx_zero]
      refine List.pairwise_cons.2 ⟨fun z hz => ?_, h⟩
      rcases List.mem_cons.1 hz with rfl | hz
      · exact not_lt.1 hlt
      · exact (not_lt.1 hlt).trans (hy.1 z hz)

/-- The element at the lower bound of `t` is at the lower bound of its key. -/
theorem SortedBy.lowerBound_getElem (h : SortedBy key l) (hi : lowerBound key l t < l.length) :
    lowerBound key l (key l[lowerBound key l t]) = lowerBound key l t := by
  refine le_antisymm (not_lt.1 fun hlt => ?_) (not_lt.1 fun hlt => ?_)
  · exact lt_irrefl _ ((h.lt_lowerBound_iff hi).1 hlt)
  · have hj := hlt.trans hi
    have hle : key l[lowerBound key l t] ≤ key l[lowerBound key l (key l[lowerBound key l t])] :=
      not_lt.1 fun hlt' => lt_irrefl _ ((h.lt_lowerBound_iff hj).2 hlt')
    have hkey := (h.lt_lowerBound_iff hj).1 hlt
    exact lt_irrefl _ ((h.lt_lowerBound_iff hi).2 (hle.trans_lt hkey))

/-- Taking the element at the lower bound of `t` out and inserting it again gives the same
    list. -/
theorem SortedBy.insertIdx_erase [DecidableEq α] (h : SortedBy key l) (hn : l.Nodup)
    (hi : lowerBound key l t < l.length) {x : α} (hx : l[lowerBound key l t] = x) :
    (l.erase x).insertIdx (lowerBound key (l.erase x) (key x)) x = l := by
  have hlb : lowerBound key (l.erase x) (key x) = lowerBound key l t := by
    rw [← h.lowerBound_getElem hi, hx, lowerBound, List.countP_erase]
    simp [lowerBound]
  rw [hlb, ← hx, hn.erase_getElem, List.insertIdx_eraseIdx_getElem]

/-- Taking out again what has been inserted. -/
theorem erase_insertIdx [DecidableEq α] {d : α} (h : d ∉ l) {i : ℕ}
    (hi : i ≤ l.length) : (l.insertIdx i d).erase d = l := by
  induction l generalizing i with
  | nil =>
    rw [Nat.le_zero.1 hi, List.insertIdx_zero, List.erase_cons_head]
  | cons a l ih =>
    cases i with
    | zero => rw [List.insertIdx_zero, List.erase_cons_head]
    | succ i =>
      rw [List.mem_cons, not_or] at h
      rw [List.insertIdx_succ_cons, List.erase_cons_tail (by simp [Ne.symm h.1]),
        ih h.2 (Nat.le_of_succ_le_succ hi)]

/-- Sortedness only depends on the keys of the elements. -/
theorem SortedBy.congr {key' : α → β} (h : SortedBy key l) (hk : ∀ x ∈ l, key' x = key x) :
    SortedBy key' l :=
  h.imp_of_mem fun {x y} hx hy hxy => by rwa [hk x hx, hk y hy]

theorem SortedBy.sublist {l' : List α} (h : SortedBy key l) (hl : l'.Sublist l) :
    SortedBy key l' :=
  List.Pairwise.sublist hl h

end KessokuOS
