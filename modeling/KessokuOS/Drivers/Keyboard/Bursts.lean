import Mathlib.Data.List.Count
import KessokuOS.Drivers.Keyboard.Code

/-!
# Scan codes in bursts

The bytes of a stream of codes arrive in bursts, each of which is read to its end
before the next one. As the driver keeps nothing between two interrupts, what is
missing of a code at the end of a burst is read as `0x00`, and what arrives of it
later as another code.

* `length_decode_le`: a stream has at most as many events as bytes that are not
  special, and a code has one such byte;
* `flatMap_decode_ne`: hence a code that has been cut is lost for good;
* `timingIndependent_iff`: the events and the keys pressed are those of the whole
  stream exactly when no code is cut.
-/

namespace KessokuOS

namespace Keyboard

/-- The events offered when bursts arrive, each of which is read to its end before
    the next one. -/
def offersBursts : Keyboard → List (List (BitVec 8)) → List KeyboardEvent
  | _, [] => []
  | s, b :: bs => (s.receive b).offersAll ++ offersBursts (s.receive b).handleAll bs

/-- The state behind these bursts. -/
def handleBursts : Keyboard → List (List (BitVec 8)) → Keyboard
  | s, [] => s
  | s, b :: bs => handleBursts (s.receive b).handleAll bs

/-- The same events are offered, and the same keys are pressed, when the bursts arrive
    and when all their bytes wait at once. -/
def TimingIndependent (s : Keyboard) (bursts : List (List (BitVec 8))) : Prop :=
  offersBursts s bursts = (s.receive bursts.flatten).offersAll ∧
    (handleBursts s bursts).keyState = (s.receive bursts.flatten).handleAll.keyState

variable {s : Keyboard} {c : Code} {cs : List Code} {w b r : List (BitVec 8)}
  {bursts : List (List (BitVec 8))}

/-! ## What bursts are decoded to -/

/-- Each burst is decoded on its own. -/
theorem bursts_eq (hs : s.waiting = []) (bursts : List (List (BitVec 8))) :
    offersBursts s bursts = bursts.flatMap decode ∧
      (handleBursts s bursts).keyState = (bursts.flatMap decode).foldl note s.keyState := by
  induction bursts generalizing s with
  | nil => exact ⟨rfl, rfl⟩
  | cons b bs ih =>
    have hb : (s.receive b).waiting = b := by rw [receive, hs, List.nil_append]
    obtain ⟨h₁, h₂⟩ := ih (waiting_handleAll (s.receive b))
    rw [offersBursts, handleBursts, h₁, h₂, offersAll_eq, keyState_handleAll, hb,
      List.flatMap_cons, List.foldl_append]
    exact ⟨rfl, rfl⟩

/-- The keys follow the events. -/
theorem timingIndependent_iff_decode (hs : s.waiting = []) :
    TimingIndependent s bursts ↔ bursts.flatMap decode = decode bursts.flatten := by
  obtain ⟨h₁, h₂⟩ := bursts_eq hs bursts
  have hb : (s.receive bursts.flatten).waiting = bursts.flatten := by
    rw [receive, hs, List.nil_append]
  rw [TimingIndependent, h₁, h₂, offersAll_eq, keyState_handleAll, hb]
  exact and_iff_left_of_imp fun h => by rw [h]; rfl

/-! ## How many events there are -/

/-- The byte is not one of those that stand before the byte of a key. -/
def plain (b : BitVec 8) : Bool := b ≠ 0xE0 ∧ b ≠ 0xF0

theorem plain_of_known {x : Bool} {b : BitVec 8} (h : scancodeMap x b ≠ .unknown) :
    plain b = true :=
  decide_eq_true ⟨(Code.mk x b .pressed h).byte_ne_e0, (Code.mk x b .pressed h).byte_ne_f0⟩

/-- An event takes a plain byte. -/
theorem length_event_le {x : Bool} {b : BitVec 8} {e : KeyEvent} :
    (if scancodeMap x b ≠ .unknown then some (⟨scancodeMap x b, e⟩ : KeyboardEvent)
      else none).toList.length + w.countP plain ≤ (b :: w).countP plain := by
  by_cases h : scancodeMap x b = .unknown
  · rw [if_neg (not_not.2 h), Option.toList_none, List.length_nil, Nat.zero_add]
    exact (List.sublist_cons_self b w).countP_le
  · rw [if_pos h, List.countP_cons_of_pos (plain_of_known h), Nat.add_comm]
    exact le_rfl

theorem countP_drain_le (w : List (BitVec 8)) : (drain w).countP plain ≤ w.countP plain := by
  induction w with
  | nil => exact le_rfl
  | cons b w ih =>
    have hle : w.countP plain ≤ (b :: w).countP plain := (List.sublist_cons_self b w).countP_le
    rw [drain]
    split_ifs
    · exact ih.trans hle
    · exact hle

/-- Reading a code takes a plain byte if it gives an event. -/
theorem length_nextEvent_le (w : List (BitVec 8)) :
    (nextEvent w).toList.length + (parseScancode w).2.countP plain ≤ w.countP plain := by
  rcases w with _ | ⟨x, w⟩
  · exact le_rfl
  have hx : w.countP plain ≤ (x :: w).countP plain := (List.sublist_cons_self x w).countP_le
  by_cases h₁ : x = 0xE0
  · subst h₁
    rcases w with _ | ⟨y, w⟩
    · exact le_rfl
    have hy : w.countP plain ≤ (y :: w).countP plain := (List.sublist_cons_self y w).countP_le
    by_cases h₂ : y = 0x12
    · -- What is drained has no fewer plain bytes than what is left of it.
      subst h₂
      rw [nextEvent, parseScancode_e0_12]
      refine le_trans ?_ (((countP_drain_le w).trans hy).trans hx)
      exact (Nat.zero_add _).le
    by_cases h₃ : y = 0xF0
    · subst h₃
      rcases w with _ | ⟨z, w⟩
      · exact le_rfl
      rw [nextEvent, parseScancode_e0_break]
      exact (length_event_le (x := true)).trans (hy.trans hx)
    · rw [nextEvent, parseScancode_e0_make h₂ h₃]
      exact (length_event_le (x := true)).trans hx
  by_cases h₂ : x = 0xF0
  · subst h₂
    rcases w with _ | ⟨y, w⟩
    · exact le_rfl
    rw [nextEvent, parseScancode_break]
    exact (length_event_le (x := false)).trans hx
  · rw [nextEvent, parseScancode_make h₁ h₂]
    exact length_event_le (x := false)

/-- A stream has at most as many events as plain bytes. -/
theorem length_decode_le (w : List (BitVec 8)) : (decode w).length ≤ w.countP plain := by
  induction hn : w.length using Nat.strong_induction_on generalizing w with
  | _ n ih =>
    cases w with
    | nil => exact le_rfl
    | cons b w =>
      have hlt := length_parseScancode_lt b w
      rw [hn] at hlt
      have h₁ := ih _ hlt _ rfl
      have h₂ := length_nextEvent_le (b :: w)
      rw [decode_cons, List.length_append]
      omega

theorem length_flatMap_decode_le (bursts : List (List (BitVec 8))) :
    (bursts.flatMap decode).length ≤ bursts.flatten.countP plain := by
  induction bursts with
  | nil => exact le_rfl
  | cons b bs ih =>
    rw [List.flatMap_cons, List.flatten_cons, List.length_append, List.countP_append]
    exact Nat.add_le_add (length_decode_le b) ih

/-- A code has one plain byte. -/
theorem countP_bytes (c : Code) : c.bytes.countP plain = 1 := by
  have hpre : ∀ x e, (Code.pre x e).countP plain = 0 := by
    intro x e
    cases x <;> cases e <;> rfl
  rw [Code.bytes, List.countP_append, hpre, List.countP_cons_of_pos (plain_of_known c.known)]
  rfl

theorem countP_flatMap_bytes (cs : List Code) :
    (cs.flatMap Code.bytes).countP plain = cs.length := by
  induction cs with
  | nil => rfl
  | cons c cs ih =>
    rw [List.flatMap_cons, List.countP_append, countP_bytes, ih, List.length_cons, Nat.add_comm]

/-! ## A code that has been cut -/

/-- A piece of what stands before the byte of a key is nothing on its own. -/
theorem decode_piece {x : Bool} {e : KeyEvent} {p : List (BitVec 8)}
    (h : p <:+: Code.pre x e) : decode p = [] := by
  have hall : ∀ x e, ∀ q ∈ (Code.pre x e).tails, ∀ p ∈ q.inits, decode p = [] := by
    intro x e
    cases x <;> cases e <;> decide
  obtain ⟨q, hpq, hq⟩ := List.infix_iff_prefix_suffix.1 h
  exact hall x e q ((List.mem_tails q _).2 hq) p ((List.mem_inits p _).2 hpq)

theorem scancodeMapSingleByte_ne (b : BitVec 8) (h : scancodeMapE0 b ≠ .unknown) :
    scancodeMapSingleByte b ≠ scancodeMapE0 b := by
  revert b
  decide +kernel

/-- The rest of a code that has been cut is read as another code. -/
theorem read_rest {q : List (BitVec 8)} (hq : q <:+ Code.pre c.extended c.event)
    (hne : q ≠ Code.pre c.extended c.event) (w : List (BitVec 8)) :
    nextEvent (q ++ c.byte :: w) ≠ some c.keyEvent ∧
      (parseScancode (q ++ c.byte :: w)).2 = w := by
  have hall : ∀ x e, ∀ q ∈ (Code.pre x e).tails, q ≠ Code.pre x e →
      q = [] ∧ (x = true ∨ e = .released) ∨ q = [0xF0] ∧ x = true := by
    intro x e
    cases x <;> cases e <;> decide
  have hread : ∀ e : KeyEvent, (c.extended = true ∨ c.event ≠ e) →
      (if scancodeMapSingleByte c.byte ≠ .unknown then
        some (⟨scancodeMapSingleByte c.byte, e⟩ : KeyboardEvent) else none) ≠ some c.keyEvent := by
    intro e he h
    have heq := Option.some.inj (Option.ite_none_right_eq_some.1 h).2
    rcases he with hx | he
    · have hk := c.known
      have hkey : scancodeMapSingleByte c.byte = scancodeMap c.extended c.byte :=
        congrArg KeyboardEvent.key heq
      rw [hx] at hk hkey
      exact scancodeMapSingleByte_ne c.byte hk hkey
    · exact he (congrArg KeyboardEvent.event heq).symm
  rcases hall _ _ q ((List.mem_tails q _).2 hq) hne with ⟨rfl, h⟩ | ⟨rfl, h⟩
  · rw [List.nil_append, nextEvent, parseScancode_make c.byte_ne_e0 c.byte_ne_f0]
    refine ⟨hread .pressed (h.imp_right fun he => ?_), rfl⟩
    rw [he]
    decide
  · rw [List.singleton_append, nextEvent, parseScancode_break]
    exact ⟨hread .released (.inl h), rfl⟩

/-- When the rest of a code that has been cut arrives, the event of the code does not,
    and nothing makes up for it. -/
theorem flatMap_decode_ne {q : List (BitVec 8)} (hq : q <:+ Code.pre c.extended c.event)
    (hne : q ≠ Code.pre c.extended c.event)
    (h : bursts.flatten = q ++ c.byte :: cs.flatMap Code.bytes) :
    bursts.flatMap decode ≠ c.keyEvent :: cs.map Code.keyEvent := by
  induction bursts generalizing q with
  | nil => exact absurd h (by simp)
  | cons b bs ih =>
    rw [List.flatten_cons] at h
    rw [List.flatMap_cons]
    have hearly : ∀ a, q = b ++ a → bs.flatten = a ++ c.byte :: cs.flatMap Code.bytes →
        decode b ++ bs.flatMap decode ≠ c.keyEvent :: cs.map Code.keyEvent := by
      -- The burst ends before the byte of the key.
      intro a hqa hbs
      have ha : a <:+ q := ⟨b, hqa.symm⟩
      have hb : b <:+: Code.pre c.extended c.event :=
        List.infix_iff_prefix_suffix.2 ⟨q, ⟨a, hqa.symm⟩, hq⟩
      rw [decode_piece hb, List.nil_append]
      refine ih (ha.trans hq) (fun hap => ?_) hbs
      exact hne (hq.eq_of_length (le_antisymm hq.length_le (hap ▸ ha.length_le)))
    rcases List.append_eq_append_iff.1 h with ⟨a, hqa, hbs⟩ | ⟨b', hb, hb'⟩
    · exact hearly a hqa hbs
    cases b' with
    | nil => exact hearly [] (by simpa using hb.symm) hb'.symm
    | cons x b' =>
      obtain ⟨rfl, hR⟩ := List.cons.inj hb'
      obtain ⟨hev, hrest⟩ := read_rest hq hne b'
      rw [hb, decode_of_ne_nil (by simp), hrest, List.append_assoc]
      have hlen : (decode b' ++ bs.flatMap decode).length ≤ cs.length := by
        rw [← countP_flatMap_bytes cs, hR]
        exact length_flatMap_decode_le (b' :: bs)
      cases hk : nextEvent (q ++ c.byte :: b') with
      | none =>
        intro heq
        rw [Option.toList_none, List.nil_append] at heq
        rw [heq, List.length_cons, List.length_map] at hlen
        omega
      | some k =>
        rw [hk] at hev
        exact fun heq => hev (congrArg some (List.cons.inj heq).1)

/-! ## Where a stream is cut -/

/-- The end of a burst is behind a code, or behind a piece of what stands before the
    byte of a key. -/
theorem append_eq_flatMap_bytes (h : b ++ r = cs.flatMap Code.bytes) :
    (∃ cs₁ cs₂, cs = cs₁ ++ cs₂ ∧ b = cs₁.flatMap Code.bytes ∧ r = cs₂.flatMap Code.bytes) ∨
    ∃ cs₁ c cs₂ p q, cs = cs₁ ++ c :: cs₂ ∧ Code.pre c.extended c.event = p ++ q ∧ p ≠ [] ∧
      b = cs₁.flatMap Code.bytes ++ p ∧ r = q ++ c.byte :: cs₂.flatMap Code.bytes := by
  induction cs generalizing b with
  | nil =>
    obtain ⟨rfl, rfl⟩ := List.append_eq_nil_iff.1 h
    exact .inl ⟨[], [], rfl, rfl, rfl⟩
  | cons c cs ih =>
    rw [List.flatMap_cons] at h
    rcases List.append_eq_append_iff.1 h with ⟨a, hca, hr⟩ | ⟨b', hb, hb'⟩
    · rcases List.eq_nil_or_concat a with rfl | ⟨q, x, rfl⟩
      · refine .inl ⟨[c], cs, rfl, ?_, hr⟩
        rw [List.append_nil] at hca
        rw [List.flatMap_singleton, hca]
      · rw [List.concat_eq_append] at hca hr
        by_cases hb : b = []
        · refine .inl ⟨[], c :: cs, rfl, hb, ?_⟩
          rw [hb, List.nil_append] at hca
          rw [hr, List.flatMap_cons, hca]
        · rw [Code.bytes, ← List.append_assoc] at hca
          obtain ⟨hpre, hx⟩ := List.append_inj' hca rfl
          obtain rfl := (List.cons.inj hx).1
          refine .inr ⟨[], c, cs, b, q, rfl, hpre, hb, rfl, ?_⟩
          rw [hr, List.append_assoc, List.singleton_append]
    · rcases ih hb'.symm with ⟨cs₁, cs₂, rfl, rfl, hr⟩ | ⟨cs₁, c', cs₂, p, q, rfl, hpq, hp, rfl, hr⟩
      · exact .inl ⟨c :: cs₁, cs₂, rfl, hb, hr⟩
      · refine .inr ⟨c :: cs₁, c', cs₂, p, q, rfl, hpq, hp, ?_, hr⟩
        rw [hb, List.flatMap_cons, List.append_assoc]

/-- The bursts have the events of the codes exactly when no code is cut. -/
theorem flatMap_decode_iff (h : bursts.flatten = cs.flatMap Code.bytes) :
    bursts.flatMap decode = cs.map Code.keyEvent ↔
      ∃ css : List (List Code), cs = css.flatten ∧ bursts = css.map (List.flatMap Code.bytes) := by
  constructor
  · intro heq
    induction bursts generalizing cs with
    | nil => exact ⟨[], flatMap_bytes_eq_nil_iff.1 h.symm, rfl⟩
    | cons b bs ih =>
      rw [List.flatten_cons] at h
      rw [List.flatMap_cons] at heq
      rcases append_eq_flatMap_bytes h with ⟨cs₁, cs₂, rfl, rfl, hr⟩ |
        ⟨cs₁, c, cs₂, p, q, rfl, hpq, hp, rfl, hr⟩
      · rw [decode_flatMap_bytes, List.map_append] at heq
        obtain ⟨css, rfl, rfl⟩ := ih hr (List.append_cancel_left heq)
        exact ⟨cs₁ :: css, rfl, rfl⟩
      · have hdec : decode p = [] :=
          decode_piece (List.IsPrefix.isInfix ⟨q, hpq.symm⟩)
        rw [decode_flatMap_bytes_append, hdec, List.append_nil, List.map_append] at heq
        refine absurd (List.append_cancel_left heq) (flatMap_decode_ne ⟨p, hpq.symm⟩ ?_ hr)
        intro hq
        rw [hq] at hpq
        exact hp (List.self_eq_append_left.1 hpq)
  · rintro ⟨css, rfl, rfl⟩
    rw [List.flatMap_map, List.map_flatten, List.flatMap_def]
    exact congrArg List.flatten (List.map_congr_left fun cs _ => decode_flatMap_bytes cs)

/-- The events and the keys pressed do not depend on when the bytes of some codes
    arrive exactly when the bursts consist of whole codes. -/
theorem timingIndependent_iff (hs : s.waiting = []) (h : bursts.flatten = cs.flatMap Code.bytes) :
    TimingIndependent s bursts ↔
      ∃ css : List (List Code), cs = css.flatten ∧ bursts = css.map (List.flatMap Code.bytes) := by
  rw [timingIndependent_iff_decode hs, h, decode_flatMap_bytes, flatMap_decode_iff h]

/-- The make code of a cursor key, whose second byte is also a code of the keypad. -/
def upArrow : Code := ⟨true, 0x75, .pressed, by decide⟩

theorem timingIndependent_sample : TimingIndependent noneWaiting [[0xE0], [0x75]] ↔
    ∃ css : List (List Code), [upArrow] = css.flatten ∧
      [[0xE0], [0x75]] = css.map (List.flatMap Code.bytes) :=
  timingIndependent_iff rfl rfl

/-- Cut in two, the code is read as that of the keypad. -/
theorem not_timingIndependent_upArrow :
    [[0xE0], [0x75]].flatten = [upArrow].flatMap Code.bytes ∧
      offersBursts noneWaiting [[0xE0], [0x75]] = [⟨.keypad8, .pressed⟩] ∧
      (noneWaiting.receive [0xE0, 0x75]).offersAll = [⟨.upArrow, .pressed⟩] ∧
      ¬TimingIndependent noneWaiting [[0xE0], [0x75]] :=
  ⟨rfl, by decide, by decide, fun h => absurd h.1 (by decide)⟩

end Keyboard

end KessokuOS
