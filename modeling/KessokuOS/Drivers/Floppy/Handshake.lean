import KessokuOS.Drivers.Floppy.Driver
import KessokuOS.Lib.Run

/-!
# The handshake of the driver with its interrupt

The driver sets a flag, which the handler of the interrupt clears, and waits until it
finds it cleared, or a time is over. `Handshake` is this protocol on its own: it takes
the events of a log, in their order, and refuses those that do not belong to it. It
keeps what the driver cannot see, that an interrupt has been handled since the flag
was set, and how many ticks there were since the wait began.

What it takes is a handshake (`handshaken_of_run`): the wait only succeeds by an
interrupt behind the setting of the flag, an interrupt behind it is found by the next
test, and the wait is only given up when enough ticks are over (`Handshaken`).
-/

namespace KessokuOS.Floppy

variable {δ : Type*}

/-- A tick. -/
def Event.isTimer : Event δ → Bool
  | .interrupt .timer => true
  | _ => false

/-- An access to a port or to the time, or a halt. -/
def Event.Plain : Event δ → Prop
  | .readByte _ _ => True
  | .writeByte _ _ _ _ => True
  | .getTicks _ => True
  | .halt => True
  | _ => False

theorem Event.Plain.isTimer {e : Event δ} (h : e.Plain) : e.isTimer = false := by
  cases e <;> first | rfl | exact h.elim

/-- The number of ticks. -/
def ticksIn (l : List (Event δ)) : ℕ := l.countP Event.isTimer

/-- What the events of a handshake are like. -/
structure Handshaken (l : List (Event δ)) : Prop where
  /-- If the wait succeeds, an interrupt was handled behind the setting of the flag. -/
  success : ∀ pre post, l = pre ++ .waited (.ok ()) :: post →
    ∃ pre₁ mid, pre = pre₁ ++ .setWaiting :: mid ∧ .interrupt .floppy ∈ mid
  /-- Behind an interrupt that was handled since the setting of the flag, a test finds
      the flag cleared, and the wait succeeds thereupon. -/
  notLost : ∀ pre mid b post, l = pre ++ .setWaiting :: (mid ++ .testWaiting b :: post) →
    .interrupt .floppy ∈ mid → b = false ∧ ∃ post', post = .waited (.ok ()) :: post'
  /-- If the wait is given up, then because the last look at the time found that enough
      ticks were over since the first one. -/
  timedOut : ∀ pre e post, l = pre ++ .waited (.error e) :: post →
    e = .timedOut ∧ ∃ pre₁ start mid now,
      pre = pre₁ ++ .getTicks start :: (mid ++ [.getTicks now]) ∧
        (∀ n, .getTicks n ∉ pre₁) ∧ timeoutTime ≤ ticksIn mid % 2 ^ 32

namespace Handshake

/-- How far the driver has come. -/
inductive Phase
  /-- The flag is not set yet. -/
  | idle
  | armed
  /-- It waits since the tick `start`, and is about to look at the time. -/
  | waiting (start : ℕ)
  /-- It is about to test the flag. -/
  | inTime (start : ℕ)
  | halting (start : ℕ)
  /-- The flag was found cleared. -/
  | answered
  | expired
  | returned (r : ErrorOr Unit)

namespace Phase

/-- The tick at which the wait began that is going on. -/
def start? : Phase → Option ℕ
  | waiting start => some start
  | inTime start => some start
  | halting start => some start
  | _ => none

/-- The wait is not about to return. -/
def Settled (p : Phase) : Prop := p ≠ .answered ∧ p ≠ .expired

/-- The driver does not wait. -/
def Calm : Phase → Prop
  | idle => True
  | armed => True
  | returned _ => True
  | _ => False

theorem Calm.settled {p : Phase} (h : p.Calm) : p.Settled := by
  constructor <;> rintro rfl <;> exact h

end Phase

end Handshake

/-- The state of the protocol. -/
structure Handshake where
  phase : Handshake.Phase
  /-- An interrupt was handled since the flag was set. -/
  handled : Bool
  /-- The ticks since the wait began. -/
  elapsed : ℕ

namespace Handshake

def start : Handshake := ⟨.idle, false, 0⟩

/-- An interrupt. -/
def handle (h : Handshake) : Interrupt → Handshake
  | .timer => { h with elapsed := h.elapsed + 1 }
  | .floppy => { h with handled := true }
  | .other => h

/-- An event of the protocol. The return of a wait follows on its last test, or its
    last look at the time. -/
def step (h : Handshake) (e : Event δ) : Option Handshake :=
  match h.phase, e with
  | .answered, .waited (.ok ()) => some { h with phase := .returned (.ok ()) }
  | .answered, _ => none
  | .expired, .waited (.error .timedOut) => some { h with phase := .returned (.error .timedOut) }
  | .expired, _ => none
  | _, .interrupt i => some (h.handle i)
  | .idle, .setWaiting => some ⟨.armed, false, h.elapsed⟩
  | .armed, .getTicks n => if n < 2 ^ 32 then some ⟨.waiting n, h.handled, 0⟩ else none
  | .waiting start, .getTicks n =>
    if n = u32 (start + h.elapsed) then some { h with
      phase := if u32Sub n start < timeoutTime then .inTime start else .expired }
    else none
  | .inTime start, .testWaiting b =>
    if b = !h.handled then some { h with phase := if b then .halting start else .answered }
    else none
  | .halting start, .halt => some { h with phase := .waiting start }
  | .returned _, .getTicks _ => some h
  | .returned _, .halt => some h
  | .idle, .readByte _ _ => some h
  | .idle, .writeByte _ _ _ _ => some h
  | .armed, .readByte _ _ => some h
  | .armed, .writeByte _ _ _ _ => some h
  | .returned _, .readByte _ _ => some h
  | .returned _, .writeByte _ _ _ _ => some h
  | _, _ => none

variable {h h' : Handshake} {e : Event δ} {l : List (Event δ)}

/-- Interrupts come at any time, except when the wait is about to return. -/
theorem step_interrupt (hs : h.phase.Settled) (i : Interrupt) :
    step h (.interrupt i : Event δ) = some (h.handle i) := by
  obtain ⟨p, handled, elapsed⟩ := h
  cases p
  case answered => exact absurd rfl hs.1
  case expired => exact absurd rfl hs.2
  all_goals rfl

/-- The accesses of a driver that does not wait. -/
theorem step_access (hc : h.phase.Calm) (he : (∃ port v, e = .readByte port v) ∨
    ∃ role port v d, e = .writeByte role port v d) : step h e = some h := by
  obtain ⟨p, handled, elapsed⟩ := h
  rcases he with ⟨port, v, rfl⟩ | ⟨role, port, v, d, rfl⟩ <;> cases p <;>
    first | rfl | exact hc.elim

/-! ## The past of a state -/

/-- What the protocol has taken. -/
inductive Took : Handshake → Event δ → Handshake → Prop
  | interrupt {h : Handshake} (i : Interrupt) : h.phase.Settled → Took h (.interrupt i) (h.handle i)
  | set {b : Bool} {k : ℕ} : Took ⟨.idle, b, k⟩ .setWaiting ⟨.armed, false, k⟩
  | began {b : Bool} {k n : ℕ} : n < 2 ^ 32 → Took ⟨.armed, b, k⟩ (.getTicks n) ⟨.waiting n, b, 0⟩
  | looked {b : Bool} {k st : ℕ} : Took ⟨.waiting st, b, k⟩ (.getTicks (u32 (st + k)))
      ⟨if u32Sub (u32 (st + k)) st < timeoutTime then .inTime st else .expired, b, k⟩
  | tested {b : Bool} {k st : ℕ} : Took ⟨.inTime st, b, k⟩ (.testWaiting !b)
      ⟨if !b then .halting st else .answered, b, k⟩
  | halted {b : Bool} {k st : ℕ} : Took ⟨.halting st, b, k⟩ .halt ⟨.waiting st, b, k⟩
  | succeeded {b : Bool} {k : ℕ} :
      Took ⟨.answered, b, k⟩ (.waited (.ok ())) ⟨.returned (.ok ()), b, k⟩
  | gaveUp {b : Bool} {k : ℕ} :
      Took ⟨.expired, b, k⟩ (.waited (.error .timedOut)) ⟨.returned (.error .timedOut), b, k⟩
  | calm {h : Handshake} {e : Event δ} : h.phase.Calm → e.Plain →
      ((∃ n, e = .getTicks n) → ∃ r, h.phase = .returned r) → Took h e h

theorem took_of_step (hs : step h e = some h') : Took h e h' := by
  obtain ⟨p, b, k⟩ := h
  cases p with
  | idle =>
    cases e <;> simp only [step, Option.some_inj, reduceCtorEq] at hs
    case setWaiting => exact hs ▸ .set
    case interrupt i => exact hs ▸ .interrupt i (Phase.Calm.settled trivial)
    all_goals exact hs ▸ .calm trivial trivial (fun ⟨_, he⟩ => nomatch he)
  | armed =>
    cases e <;> simp only [step, Option.some_inj, reduceCtorEq, Option.ite_none_right_eq_some] at hs
    case getTicks n => exact hs.2 ▸ .began hs.1
    case interrupt i => exact hs ▸ .interrupt i (Phase.Calm.settled trivial)
    all_goals exact hs ▸ .calm trivial trivial (fun ⟨_, he⟩ => nomatch he)
  | waiting st =>
    cases e <;> simp only [step, Option.some_inj, reduceCtorEq, Option.ite_none_right_eq_some] at hs
    case getTicks n =>
      obtain ⟨rfl, rfl⟩ := hs
      exact .looked
    case interrupt i => exact hs ▸ .interrupt i ⟨nofun, nofun⟩
  | inTime st =>
    cases e <;> simp only [step, Option.some_inj, reduceCtorEq, Option.ite_none_right_eq_some] at hs
    case testWaiting b =>
      obtain ⟨rfl, rfl⟩ := hs
      exact .tested
    case interrupt i => exact hs ▸ .interrupt i ⟨nofun, nofun⟩
  | halting st =>
    cases e <;> simp only [step, Option.some_inj, reduceCtorEq] at hs
    case halt => exact hs ▸ .halted
    case interrupt i => exact hs ▸ .interrupt i ⟨nofun, nofun⟩
  | answered =>
    rcases e with _ | _ | _ | _ | _ | _ | (err | u) | _ <;> simp only [step, reduceCtorEq] at hs
    exact Option.some_inj.1 hs ▸ .succeeded
  | expired =>
    rcases e with _ | _ | _ | _ | _ | _ | (err | u) | _ <;> try simp only [step, reduceCtorEq] at hs
    cases err <;> simp only [Option.some_inj, reduceCtorEq] at hs
    exact hs ▸ .gaveUp
  | returned r =>
    cases e <;> simp only [step, Option.some_inj, reduceCtorEq] at hs
    case interrupt i => exact hs ▸ .interrupt i (Phase.Calm.settled trivial)
    all_goals exact hs ▸ .calm trivial trivial (fun _ => ⟨r, rfl⟩)

/-- The flag was set, and an interrupt since then is known. -/
def WasSet (pre : List (Event δ)) (h : Handshake) : Prop :=
  ∃ pre₁ mid, pre = pre₁ ++ .setWaiting :: mid ∧ (h.handled = true → .interrupt .floppy ∈ mid)

/-- The wait began at the tick `st`, and the ticks since then are known. -/
def Began (pre : List (Event δ)) (st : ℕ) (h : Handshake) : Prop :=
  ∃ pre₁ mid, pre = pre₁ ++ .getTicks st :: mid ∧ (∀ n, .getTicks n ∉ pre₁) ∧ st < 2 ^ 32 ∧
    h.elapsed = ticksIn mid

/-- The wait has taken too long. -/
def TookTooLong (pre : List (Event δ)) : Prop :=
  ∃ pre₁ st mid now, pre = pre₁ ++ .getTicks st :: (mid ++ [.getTicks now]) ∧
    (∀ n, .getTicks n ∉ pre₁) ∧ timeoutTime ≤ ticksIn mid % 2 ^ 32

/-- What the state of the protocol says about the events it has taken. -/
structure History (pre : List (Event δ)) (h : Handshake) : Prop where
  quiet : h.phase = .idle ∨ h.phase = .armed → ∀ n, .getTicks n ∉ pre
  wasSet : h.phase ≠ .idle → WasSet pre h
  began : ∀ st, h.phase.start? = some st → Began pre st h
  answered : h.phase = .answered → h.handled = true
  expired : h.phase = .expired → TookTooLong pre
  returned : ∀ r, h.phase = .returned r → .waited r ∈ pre

theorem WasSet.snoc {pre : List (Event δ)} (hw : WasSet pre h)
    (hh : h'.handled = true → h.handled = true ∨ e = .interrupt .floppy) :
    WasSet (pre ++ [e]) h' := by
  obtain ⟨pre₁, mid, rfl, hmid⟩ := hw
  refine ⟨pre₁, mid ++ [e], by simp, fun hh' => ?_⟩
  rcases hh hh' with hh | rfl
  · exact List.mem_append_left _ (hmid hh)
  · exact List.mem_append_right _ List.mem_cons_self

theorem Began.snoc {pre : List (Event δ)} {st : ℕ} (hb : Began pre st h)
    (hk : h'.elapsed = h.elapsed + if e.isTimer then 1 else 0) : Began (pre ++ [e]) st h' := by
  obtain ⟨pre₁, mid, rfl, hq, hst, hmid⟩ := hb
  refine ⟨pre₁, mid ++ [e], by simp, hq, hst, ?_⟩
  rw [hk, hmid, ticksIn, ticksIn, List.countP_append, List.countP_singleton]

/-- The difference of two looks at the time is the number of ticks between them, up to
    the wrap of the counter. -/
theorem u32Sub_u32_add {st : ℕ} (h : st < 2 ^ 32) (k : ℕ) :
    u32Sub (u32 (st + k)) st = k % 2 ^ 32 := by
  rw [u32Sub, u32]
  omega

theorem quiet_snoc {pre : List (Event δ)} (hq : ∀ n, .getTicks n ∉ pre)
    (he : ∀ n, e ≠ .getTicks n) : ∀ n, .getTicks n ∉ pre ++ [e] := by
  intro n hn
  rcases List.mem_append.1 hn with hn | hn
  · exact hq n hn
  · exact he n (List.mem_singleton.1 hn).symm

/-- An event of the protocol, and its history. -/
theorem History.step {pre : List (Event δ)} (hp : History pre h) (hs : Took h e h') :
    History (pre ++ [e]) h' := by
  cases hs with
  | interrupt i hset =>
    have hphase : (h.handle i).phase = h.phase := by cases i <;> rfl
    refine ⟨?_, ?_, ?_, ?_, ?_, ?_⟩
    · exact fun hq => quiet_snoc (hp.quiet (hphase ▸ hq)) nofun
    · refine fun hi => (hp.wasSet (hphase ▸ hi)).snoc fun hh => ?_
      cases i
      · exact .inl hh
      · exact .inr rfl
      · exact .inl hh
    · refine fun st hst => (hp.began st (hphase ▸ hst)).snoc ?_
      cases i <;> rfl
    · exact fun ha => absurd (hphase.symm.trans ha) hset.1
    · exact fun ha => absurd (hphase.symm.trans ha) hset.2
    · exact fun r ho => List.mem_append_left _ (hp.returned r (hphase ▸ ho))
  -- The flag is set behind all that was taken, and nothing is known since.
  | set =>
    refine ⟨fun _ => quiet_snoc (hp.quiet (.inl rfl)) nofun, fun _ => ?_, nofun, nofun, nofun,
      nofun⟩
    exact ⟨pre, [], rfl, nofun⟩
  | began hn =>
    refine ⟨nofun, fun _ => (hp.wasSet nofun).snoc .inl, ?_, nofun, nofun, nofun⟩
    rintro st ⟨⟩
    exact ⟨pre, [], rfl, hp.quiet (.inr rfl), hn, rfl⟩
  | @looked b k st =>
    have hb := hp.began st rfl
    by_cases hlt : u32Sub (u32 (st + k)) st < timeoutTime
    · rw [if_pos hlt]
      refine ⟨nofun, fun _ => (hp.wasSet nofun).snoc .inl, ?_, nofun, nofun, nofun⟩
      rintro _ ⟨⟩
      exact hb.snoc rfl
    · rw [if_neg hlt]
      refine ⟨nofun, fun _ => (hp.wasSet nofun).snoc .inl, nofun, nofun, fun _ => ?_, nofun⟩
      obtain ⟨pre₁, mid, rfl, hq, hst, rfl⟩ := hb
      -- The ticks since the first look, up to the wrap of the counter.
      rw [u32Sub_u32_add hst, not_lt] at hlt
      exact ⟨pre₁, st, mid, u32 (st + ticksIn mid), by simp, hq, hlt⟩
  | @tested b k st =>
    -- The flag is still set, and the driver halts; or it is cleared, as an interrupt was
    -- handled.
    cases b
    · refine ⟨nofun, fun _ => (hp.wasSet nofun).snoc .inl, ?_, nofun, nofun, nofun⟩
      rintro _ ⟨⟩
      exact (hp.began st rfl).snoc rfl
    · exact ⟨nofun, fun _ => (hp.wasSet nofun).snoc .inl, nofun, fun _ => rfl, nofun, nofun⟩
  | @halted b k st =>
    refine ⟨nofun, fun _ => (hp.wasSet nofun).snoc .inl, ?_, nofun, nofun, nofun⟩
    rintro _ ⟨⟩
    exact (hp.began st rfl).snoc rfl
  | succeeded =>
    refine ⟨nofun, fun _ => (hp.wasSet nofun).snoc .inl, nofun, nofun, nofun, ?_⟩
    rintro _ ⟨⟩
    exact List.mem_append_right _ List.mem_cons_self
  | gaveUp =>
    refine ⟨nofun, fun _ => (hp.wasSet nofun).snoc .inl, nofun, nofun, nofun, ?_⟩
    rintro _ ⟨⟩
    exact List.mem_append_right _ List.mem_cons_self
  | calm hc ht he =>
    refine ⟨fun hq => ?_, fun hi => (hp.wasSet hi).snoc .inl, fun st hst => ?_, fun ha => ?_,
      fun ha => ?_, fun r ho => List.mem_append_left _ (hp.returned r ho)⟩
    · refine quiet_snoc (hp.quiet hq) ?_
      rintro n rfl
      obtain ⟨r, hr⟩ := he ⟨n, rfl⟩
      rw [hr] at hq
      exact hq.elim nofun nofun
    · exact (hp.began st hst).snoc (by rw [ht.isTimer]; rfl)
    · exact absurd ha hc.settled.1
    · exact absurd ha hc.settled.2

/-- The history of what was taken from the start on. -/
theorem history_of_run (hr : Run.run step start l = some h) : History l h := by
  -- From the last event backwards, as the history of a state is that of all before it.
  induction l using List.reverseRecOn generalizing h with
  | nil =>
    obtain rfl := Option.some.inj hr
    exact ⟨fun _ _ => List.not_mem_nil, fun hi => absurd rfl hi, nofun, nofun, nofun, nofun⟩
  | append_singleton l e ih =>
    obtain ⟨h₁, hl, he⟩ := Run.run_append.1 hr
    obtain ⟨h₂, hs, he⟩ := Run.run_cons.1 he
    obtain rfl := Option.some.inj he
    exact (ih hl).step (took_of_step hs)

/-! ## What is taken is a handshake -/

/-- Once the flag is set, an interrupt is noticed, and stays known. -/
theorem handled_of_took (ht : Took h e h') (hi : h.phase ≠ .idle) : h'.phase ≠ .idle ∧
    (h.handled = true ∨ e = .interrupt .floppy → h'.handled = true) := by
  cases ht with
  | interrupt i =>
    cases i with
    | floppy => exact ⟨hi, fun _ => rfl⟩
    | timer => exact ⟨hi, fun hh => hh.resolve_right nofun⟩
    | other => exact ⟨hi, fun hh => hh.resolve_right nofun⟩
  | set => exact absurd rfl hi
  | looked => exact ⟨by split_ifs <;> nofun, fun hh => hh.resolve_right nofun⟩
  | tested => exact ⟨by split_ifs <;> nofun, fun hh => hh.resolve_right nofun⟩
  | calm _ hp => exact ⟨hi, fun hh => hh.resolve_right (by rintro rfl; exact hp)⟩
  | _ => exact ⟨nofun, fun hh => hh.resolve_right nofun⟩

theorem handled_of_run (hr : Run.run step h l = some h') (hi : h.phase ≠ .idle)
    (hh : h.handled = true ∨ .interrupt .floppy ∈ l) : h'.phase ≠ .idle ∧ h'.handled = true := by
  induction l generalizing h with
  | nil =>
    obtain rfl := Option.some.inj hr
    exact ⟨hi, hh.resolve_right List.not_mem_nil⟩
  | cons e l ih =>
    obtain ⟨h₁, hs, hl⟩ := Run.run_cons.1 hr
    obtain ⟨hi₁, hh₁⟩ := handled_of_took (took_of_step hs) hi
    refine ih hl hi₁ ?_
    -- It is known already, or it comes next, or later.
    rcases hh with hh | hh
    · exact .inl (hh₁ (.inl hh))
    · rcases List.mem_cons.1 hh with rfl | hh
      · exact .inl (hh₁ (.inr rfl))
      · exact .inr hh

/-- Nothing but the return of the wait follows a test that found the flag cleared. -/
theorem eq_waited_of_took (ht : Took h e h') (ha : h.phase = .answered) : e = .waited (.ok ()) := by
  cases ht with
  | interrupt i hs => exact absurd ha hs.1
  | succeeded => rfl
  | calm hc => exact absurd ha hc.settled.1
  | _ => nomatch ha

/-- The events taken from the start on are a handshake, unless a wait is just about to
    return. -/
theorem handshaken_of_run (hr : Run.run step start l = some h) (hs : h.phase.Settled) :
    Handshaken l := by
  refine ⟨?_, ?_, ?_⟩
  · rintro pre post rfl
    obtain ⟨h₁, hpre, hpost⟩ := Run.run_append.1 hr
    obtain ⟨h₂, hstep, -⟩ := Run.run_cons.1 hpost
    have hp := history_of_run hpre
    cases took_of_step hstep with
    | succeeded =>
      obtain ⟨pre₁, mid, hmid, hf⟩ := hp.wasSet nofun
      exact ⟨pre₁, mid, hmid, hf (hp.answered rfl)⟩
    | calm _ he => exact he.elim
  · rintro pre mid b post rfl hmid
    obtain ⟨h₁, -, hpost⟩ := Run.run_append.1 hr
    obtain ⟨h₂, hset, hpost⟩ := Run.run_cons.1 hpost
    obtain ⟨h₃, hrun, hpost⟩ := Run.run_append.1 hpost
    obtain ⟨h₄, htest, hpost⟩ := Run.run_cons.1 hpost
    have h₂idle : h₂.phase ≠ .idle := by
      cases took_of_step hset with
      | set => nofun
      | calm _ he => exact he.elim
    have h₃handled := (handled_of_run hrun h₂idle (.inr hmid)).2
    cases took_of_step htest with
    | @tested b k st =>
      obtain rfl : b = true := h₃handled
      refine ⟨rfl, ?_⟩
      -- The wait is about to return, so that it does so next.
      cases post with
      | nil => exact absurd (congrArg Handshake.phase (Option.some.inj hpost)).symm hs.1
      | cons e post =>
        obtain ⟨h₅, hstep, -⟩ := Run.run_cons.1 hpost
        exact ⟨post, by rw [eq_waited_of_took (took_of_step hstep) rfl]⟩
    | calm _ he => exact he.elim
  · rintro pre e post rfl
    obtain ⟨h₁, hpre, hpost⟩ := Run.run_append.1 hr
    obtain ⟨h₂, hstep, -⟩ := Run.run_cons.1 hpost
    have hp := history_of_run hpre
    cases took_of_step hstep with
    | gaveUp => exact ⟨rfl, hp.expired rfl⟩
    | calm _ he => exact he.elim

end Handshake

end KessokuOS.Floppy
