import Mathlib.Data.List.Chain

/-!
# Doubly linked lists

A list of nodes is linked when the link of each node onward leads to the one
behind it, the link of each node back leads to the one before it, and the links
out of the list are null. With the null node added on both sides this is a
property of the consecutive nodes only (`Link`), so that a list is linked when
it is linked left and right of any of its nodes (`linked_append_cons`).

* `Linked.next_eq`, `Linked.prev_eq`: where the links lead;
* `Linked.congr`: links only matter at the nodes of the list;
* `Linked.concat`: appending a node;
* `Linked.remove`: taking out the node behind a given one.
-/

namespace KessokuOS

variable {α : Type*} {null : α} {prev next prev' next' : α → α} {l r : List α} {a b c : α}

/-- The nodes `x` and `y` are linked both ways, as far as they are nodes. -/
def Link (null : α) (prev next : α → α) (x y : α) : Prop :=
  (x ≠ null → next x = y) ∧ (y ≠ null → prev y = x)

/-- The nodes of `l` are linked, in this order. -/
def Linked (null : α) (prev next : α → α) (l : List α) : Prop :=
  List.IsChain (Link null prev next) (null :: (l ++ [null]))

/-- Relations on consecutive elements carry over, element by element: the first
    one does not follow any, the last one does not precede any. -/
theorem isChain_mono {R S : α → α → Prop} (h : ∀ x ∈ a :: l, ∀ y ∈ l ++ [b], R x y → S x y)
    (hl : List.IsChain R (a :: (l ++ [b]))) : List.IsChain S (a :: (l ++ [b])) := by
  induction l generalizing a with
  | nil =>
    rw [List.nil_append, List.isChain_pair] at hl ⊢
    exact h a List.mem_cons_self b (by simp) hl
  | cons c l ih =>
    rw [List.cons_append, List.isChain_cons_cons] at hl ⊢
    exact ⟨h a List.mem_cons_self c List.mem_cons_self hl.1,
      ih (fun x hx y hy => h x (List.mem_cons_of_mem _ hx) y (List.mem_cons_of_mem _ hy)) hl.2⟩

section IsChain

variable {R S T : α → α → Prop}

theorem isChain_of_forall (h : ∀ x y, R x y) : l.IsChain R :=
  List.isChain_iff_forall_rel_of_append_cons_cons.2 fun x y _ _ _ => h x y

/-- What follows from two relations. -/
theorem isChain_imp₂ (h : ∀ x, ∀ y ∈ l, R x y → S x y → T x y) (hR : (a :: l).IsChain R)
    (hS : (a :: l).IsChain S) : (a :: l).IsChain T := by
  rw [List.isChain_iff_forall_rel_of_append_cons_cons] at hR hS ⊢
  intro x y l₁ l₂ hl
  refine h x y ?_ (hR hl) (hS hl)
  have hy : y ∈ (a :: l).tail := by
    rw [hl]
    cases l₁ <;> simp
  exact hy

/-- An element and the one before it. -/
theorem isChain_getLastD (h : (a :: (l ++ b :: r)).IsChain R) : R (l.getLastD a) b := by
  rcases List.eq_nil_or_concat l with rfl | ⟨l, c, rfl⟩
  · exact (List.isChain_cons_cons.1 h).1
  · rw [List.concat_eq_append, List.append_assoc, List.singleton_append] at h
    rw [List.concat_eq_append, List.getLastD_concat]
    exact (List.isChain_cons_append_cons_cons.1 h).2.1

end IsChain

/-- Links carry over where the fields they are made of do. -/
theorem isChain_link_congr (hn : ∀ x ∈ a :: l, x ≠ null → next' x = next x)
    (hp : ∀ y ∈ l ++ [b], y ≠ null → prev' y = prev y)
    (hl : List.IsChain (Link null prev next) (a :: (l ++ [b]))) :
    List.IsChain (Link null prev' next') (a :: (l ++ [b])) :=
  isChain_mono (fun x hx y hy hxy => ⟨fun h => (hn x hx h).trans (hxy.1 h),
    fun h => (hp y hy h).trans (hxy.2 h)⟩) hl

/-- A list is linked when it is linked left and right of a node. -/
theorem linked_append_cons : Linked null prev next (l ++ b :: r) ↔
    List.IsChain (Link null prev next) (null :: (l ++ [b])) ∧
      List.IsChain (Link null prev next) (b :: (r ++ [null])) := by
  rw [Linked, List.append_assoc, List.cons_append, List.isChain_cons_split]

theorem Linked.next_eq (h : Linked null prev next (l ++ b :: r)) (hb : b ≠ null) :
    next b = r.headD null := by
  have hr := (linked_append_cons.1 h).2
  cases r with
  | nil => exact (List.isChain_pair.1 hr).1 hb
  | cons c r => exact (List.isChain_cons_cons.1 hr).1.1 hb

theorem Linked.prev_eq (h : Linked null prev next (l ++ b :: r)) (hb : b ≠ null) :
    prev b = l.getLastD null := by
  rcases List.eq_nil_or_concat l with rfl | ⟨l, c, rfl⟩
  · exact (List.isChain_pair.1 (linked_append_cons.1 h).1).2 hb
  · rw [List.concat_eq_append, List.append_assoc, List.singleton_append] at h
    rw [List.concat_eq_append, List.getLastD_concat]
    exact (List.isChain_cons_cons.1 (linked_append_cons.1 h).2).1.2 hb

/-- Links only matter at the nodes of the list. -/
theorem Linked.congr (h : Linked null prev next l)
    (hl : ∀ x ∈ l, next' x = next x ∧ prev' x = prev x) : Linked null prev' next' l := by
  refine isChain_link_congr (fun x hx hx₀ => ?_) (fun y hy hy₀ => ?_) h
  · exact (hl x ((List.mem_cons.1 hx).resolve_left hx₀)).1
  · rcases List.mem_append.1 hy with hy | hy
    · exact (hl y hy).2
    · exact absurd (List.mem_singleton.1 hy) hy₀

/-- Appending the node `c` behind the last one. -/
theorem Linked.concat (h : Linked null prev next (l ++ [b]))
    (hn : ∀ x ∈ l, next' x = next x) (hp : ∀ x ∈ l ++ [b], prev' x = prev x)
    (hb : next' b = c) (hc : prev' c = b) (hc' : next' c = null) :
    Linked null prev' next' (l ++ [b, c]) := by
  rw [linked_append_cons] at h ⊢
  refine ⟨isChain_link_congr (fun x hx hx₀ => ?_) (fun y hy _ => hp y hy) h.1, ?_⟩
  · exact hn x ((List.mem_cons.1 hx).resolve_left hx₀)
  · rw [List.singleton_append, List.isChain_cons_cons, List.isChain_pair]
    exact ⟨⟨fun _ => hb, fun _ => hc⟩, fun _ => hc', fun h₀ => absurd rfl h₀⟩

/-- Taking out the node `c` behind `b`. -/
theorem Linked.remove (h : Linked null prev next (l ++ b :: c :: r)) (hc : c ≠ null)
    (hn : ∀ x ∈ l ++ r, next' x = next x) (hp : ∀ x ∈ l ++ b :: r.tail, prev' x = prev x)
    (hb : next' b = next c) (hr : ∀ d ∈ r.head?, prev' d = b) :
    Linked null prev' next' (l ++ b :: r) := by
  rw [linked_append_cons, List.cons_append, List.isChain_cons_cons] at h
  obtain ⟨hl, _, hr'⟩ := h
  refine linked_append_cons.2 ⟨isChain_link_congr (fun x hx hx₀ => ?_) (fun y hy _ => ?_) hl, ?_⟩
  · exact hn x (List.mem_append_left _ ((List.mem_cons.1 hx).resolve_left hx₀))
  · refine hp y ?_
    rcases List.mem_append.1 hy with hy | hy
    · exact List.mem_append_left _ hy
    · exact List.mem_append_right _ (List.mem_singleton.1 hy ▸ List.mem_cons_self)
  · cases r with
    | nil =>
      have hc₀ : next c = null := (List.isChain_pair.1 hr').1 hc
      exact List.isChain_pair.2 ⟨fun _ => hb.trans hc₀, fun h₀ => absurd rfl h₀⟩
    | cons d r =>
      rw [List.cons_append, List.isChain_cons_cons] at hr' ⊢
      refine ⟨⟨fun _ => hb.trans (hr'.1.1 hc), fun _ => hr d rfl⟩, ?_⟩
      refine isChain_link_congr (fun x hx _ => ?_) (fun y hy hy₀ => ?_) hr'.2
      · exact hn x (List.mem_append_right _ hx)
      · refine hp y (List.mem_append_right _ (List.mem_cons_of_mem _ ?_))
        exact (List.mem_append.1 hy).resolve_right fun h₀ => hy₀ (List.mem_singleton.1 h₀)

end KessokuOS
