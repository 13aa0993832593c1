import KessokuOS.Drivers.Floppy.Answers
import KessokuOS.Drivers.Floppy.Controller

/-!
# The data port

A byte may be written to the data port, or read from it, when the main status register
has shown that the controller is ready for it, and expects it in this direction, since
the last one (`Disciplined`).

`sendCommand` looks at the status before the command and before every parameter, but
behind every result byte: that there is a first one is not checked. Hence it is
disciplined as long as it reads none.

* `disciplined_concat`: the discipline, event by event;
* `triple_sendRequest`: up to the result phase, `sendCommand` is disciplined;
* `not_disciplined_receiveResults`: the first result byte breaks it;
* `disciplined_sendCommand_iff`: for every device and whatever happens between the steps,
  the discipline is kept exactly when there are no result bytes, or the device does not take
  the bytes of the command, or does not interrupt in time (`TakesRequest`).
-/

namespace KessokuOS.Floppy

open Routine

variable {δ : Type*}

/-! ## The discipline -/

/-- The bits that the status has to show for an event: the controller is ready, and expects
    a byte, or has one; none if it is no access to the data port. -/
def Event.wanted : Event δ → Option Byte
  | .readByte port _ => if port = dataFifo then some 0xC0 else none
  | .writeByte _ port _ _ => if port = dataFifo then some 0x80 else none
  | _ => none

/-- A wait for an interrupt is over. -/
def Event.IsWaited : Event δ → Prop
  | .waited _ => True
  | _ => False

/-- The status has shown the bits `w` since the last access to the data port, and, where
    `fresh` is asked for, since the last wait for an interrupt. -/
def Showed (fresh : Prop) (w : Byte) (l : List (Event δ)) : Prop :=
  ∃ a v b, l = a ++ .readByte mainStatusRegister v :: b ∧ v &&& 0xC0 = w ∧
    ∀ e ∈ b, e.wanted = none ∧ (fresh → ¬e.IsWaited)

/-- Behind the events `l`, an access to the data port is in order: the result bytes of a
    command that interrupts belong behind its interrupt. -/
def Permitted (c : Command) (l : List (Event δ)) (e : Event δ) : Prop :=
  ∀ w ∈ e.wanted, Showed (commandHasInterrupt c = true ∧ w = 0xC0) w l

/-- Every access to the data port is in order. -/
def Disciplined (c : Command) (l : List (Event δ)) : Prop :=
  ∀ a e b, l = a ++ e :: b → Permitted c a e

variable {c : Command} {l : List (Event δ)} {e : Event δ}

theorem disciplined_nil : Disciplined c ([] : List (Event δ)) := by
  intro a e b h
  exact absurd h (List.append_ne_nil_of_right_ne_nil a (List.cons_ne_nil e b)).symm

theorem disciplined_concat : Disciplined c (l ++ [e]) ↔ Disciplined c l ∧ Permitted c l e := by
  constructor
  · intro h
    refine ⟨fun a e' b hl => h a e' (b ++ [e]) ?_, h l e [] rfl⟩
    rw [hl, List.append_assoc, List.cons_append]
  · rintro ⟨hl, he⟩ a e' b h
    rcases List.eq_nil_or_concat b with rfl | ⟨b', e'', rfl⟩
    · obtain ⟨rfl, heq⟩ := List.append_inj' h rfl
      rw [List.cons.injEq] at heq
      exact heq.1 ▸ he
    · rw [List.concat_eq_append, ← List.cons_append, ← List.append_assoc] at h
      exact hl a e' b' (List.append_inj' h rfl).1

/-- The events that are no accesses to the data port. -/
def Apart (e : Event δ) : Prop := e.wanted = none

theorem Permitted.of_apart (he : Apart e) : Permitted c l e := by
  intro w hw
  rw [he] at hw
  exact absurd hw (Option.not_mem_none w)

theorem apart_status (v : Byte) : Apart (.readByte mainStatusRegister v : Event δ) := by
  have hne : mainStatusRegister ≠ dataFifo := by decide
  rw [Apart, Event.wanted, if_neg hne]

/-- Neither an access to the data port, nor a read of the status. -/
def Silent (e : Event δ) : Prop := Apart e ∧ ∀ v, e ≠ .readByte mainStatusRegister v

/-- The data port has been accessed, and the status has not been read since. -/
def Spent (l : List (Event δ)) : Prop :=
  ∃ a e b, l = a ++ e :: b ∧ ¬Apart e ∧ ∀ e' ∈ b, ∀ v, e' ≠ .readByte mainStatusRegister v

theorem Spent.concat (h : Spent l) (he : ∀ v, e ≠ .readByte mainStatusRegister v) :
    Spent (l ++ [e]) := by
  obtain ⟨a, e₀, b, hl, he₀, hb⟩ := h
  refine ⟨a, e₀, b ++ [e], ?_, he₀, fun e' he' => ?_⟩
  · rw [hl, List.append_assoc, List.cons_append]
  · rcases List.mem_append.1 he' with he' | he'
    · exact hb e' he'
    · exact List.mem_singleton.1 he' ▸ he

theorem spent_concat (he : ¬Apart e) : Spent (l ++ [e]) :=
  ⟨l, e, [], rfl, he, fun _ h => absurd h List.not_mem_nil⟩

/-- A status that has been read is not one since the last access. -/
theorem Spent.not_showed (h : Spent l) (fresh : Prop) (w : Byte) : ¬Showed fresh w l := by
  obtain ⟨a, e, b, hl, he, hb⟩ := h
  rintro ⟨a', v, b', hl', -, hb'⟩
  -- The access lies behind the read of the status, or the other way round.
  rw [hl] at hl'
  rcases List.append_eq_append_iff.1 hl' with ⟨m, hm, hr⟩ | ⟨m, hm, hr⟩
  · cases m with
    | nil =>
      rw [List.nil_append, List.cons.injEq] at hr
      exact he (hr.1 ▸ apart_status v)
    | cons x m =>
      rw [List.cons_append, List.cons.injEq] at hr
      exact hb _ (hr.2 ▸ List.mem_append_right m List.mem_cons_self) v rfl
  · cases m with
    | nil =>
      rw [List.nil_append, List.cons.injEq] at hr
      exact he (hr.1 ▸ apart_status v)
    | cons x m =>
      rw [List.cons_append, List.cons.injEq] at hr
      exact he (hb' e (hr.2 ▸ List.mem_append_right m List.mem_cons_self)).1

/-! ## What the driver logs -/

/-- What has been logged since `l₀` meets `P`. -/
def Since (l₀ : List (Event δ)) (P : List (Event δ) → Prop) (s : State δ) : Prop :=
  ∃ l, s.log = l₀ ++ l ∧ P l

variable {l₀ : List (Event δ)} {P : List (Event δ) → Prop} {s s' : State δ}

theorem Since.step {Q : List (Event δ) → Prop} (hs : Since l₀ P s) (h : s'.log = s.log ++ [e])
    (hQ : ∀ l, P l → Q (l ++ [e])) : Since l₀ Q s' := by
  obtain ⟨l, hl, hp⟩ := hs
  exact ⟨l ++ [e], by rw [h, hl, List.append_assoc], hQ l hp⟩

/-- What one more event with `G` keeps, more such events keep. -/
theorem Since.logs {G : Event δ → Prop} (hG : ∀ l e, P l → G e → P (l ++ [e]))
    (hs : Since l₀ P s) (h : Logs G s s') : Since l₀ P s' := by
  obtain ⟨l, hl, hp⟩ := hs
  obtain ⟨l', hl', hg⟩ := h
  have hmore : ∀ l' : List (Event δ), (∀ e ∈ l', G e) → ∀ l, P l → P (l ++ l') := by
    intro l' hg
    induction l' with
    | nil => exact fun l hp => by rwa [List.append_nil]
    | cons e l' ih =>
      intro l hp
      rw [List.append_cons]
      exact ih (fun e' he' => hg e' (List.mem_cons_of_mem e he')) _
        (hG l e hp (hg e List.mem_cons_self))
  exact ⟨l ++ l', by rw [hl', hl, List.append_assoc], hmore l' hg l hp⟩

variable [Device δ]

theorem Since.turn (hG : ∀ l e, P l → Silent e → P (l ++ [e])) (hs : Since l₀ P s) :
    Since l₀ P s.turn :=
  hs.logs hG (logs_turn (fun _ => ⟨rfl, fun _ => nofun⟩) s)

omit [Device δ] in
theorem keeps_since {G : Event δ → Prop} {α : Type} {f : Driver δ α}
    (hG : ∀ l e, P l → G e → P (l ++ [e])) (hf : Keeps (Logs G) f) :
    Keeps (Preserves (Since l₀ P)) f :=
  fun s hs => hs.logs hG (hf s)

/-- Neither the flag nor a wait touches the controller. -/
theorem keeps_silent_setWaiting : Keeps (Logs Silent) (setWaiting : Driver δ Unit) :=
  fun _ => logs_step (fun _ => ⟨rfl, fun _ => nofun⟩) rfl ⟨rfl, fun _ => nofun⟩

theorem keeps_silent_waitForIrq (fuel : ℕ) :
    Keeps (Logs Silent) (waitForIrq fuel : Driver δ Unit) := by
  have hi : ∀ i, Silent (.interrupt i : Event δ) := fun _ => ⟨rfl, fun _ => nofun⟩
  refine keeps_waitForIrq ?_ ?_ ?_ ?_ fuel
  · exact fun s => logs_step hi rfl ⟨rfl, fun _ => nofun⟩
  · exact fun s => logs_step hi rfl ⟨rfl, fun _ => nofun⟩
  · exact keeps_logs_halt hi ⟨rfl, fun _ => nofun⟩
  · exact fun r s => logs_record ⟨rfl, fun _ => nofun⟩ s

omit [Device δ] in
/-- The discipline is kept by what is no access to the data port. -/
theorem disciplined_apart (l : List (Event δ)) (e : Event δ) (h : Disciplined c l)
    (he : Apart e) : Disciplined c (l ++ [e]) :=
  disciplined_concat.2 ⟨h, .of_apart he⟩

omit [Device δ] in
theorem disciplined_silent (l : List (Event δ)) (e : Event δ) (h : Disciplined c l)
    (he : Silent e) : Disciplined c (l ++ [e]) :=
  disciplined_apart l e h he.1

/-- The controller is ready for a byte of the driver, and expects one. -/
def Ready (c : Command) (l : List (Event δ)) : Prop :=
  Disciplined c l ∧ Showed False 0x80 l

/-- All has been in order, and the next access needs the status. -/
def Idle (c : Command) (l : List (Event δ)) : Prop := Disciplined c l ∧ Spent l

omit [Device δ] in
theorem idle_silent (l : List (Event δ)) (e : Event δ) (h : Idle c l) (he : Silent e) :
    Idle c (l ++ [e]) :=
  ⟨disciplined_silent l e h.1 he, h.2.concat he.2⟩

omit [Device δ] in
theorem ready_silent (l : List (Event δ)) (e : Event δ) (h : Ready c l) (he : Silent e) :
    Ready c (l ++ [e]) := by
  obtain ⟨hd, a, v, b, hl, hv, hb⟩ := h
  refine ⟨disciplined_silent l e hd he, a, v, b ++ [e], ?_, hv, fun e' he' => ?_⟩
  · rw [hl, List.append_assoc, List.cons_append]
  · rcases List.mem_append.1 he' with he' | he'
    · exact hb e' he'
    · exact List.mem_singleton.1 he' ▸ ⟨he.1, False.elim⟩

/-! ## The request -/

/-- A read of the status; if the driver finds the bits it looks for, the controller is
    ready. -/
theorem triple_status : Triple (Since l₀ (Disciplined c))
    (portReadByte mainStatusRegister : Driver δ Byte) fun r s => ∃ v, r = .ok v ∧
      Since l₀ (Disciplined c) s ∧ (v &&& 0xC0 = 0x80 → Since l₀ (Ready c) s) := by
  intro s hs
  have ht := hs.turn disciplined_silent
  refine ⟨_, rfl, ht.step rfl fun l hl => disciplined_apart l _ hl (apart_status _), fun hv => ?_⟩
  refine ht.step rfl fun l hl =>
    ⟨disciplined_apart l _ hl (apart_status _), l, _, [], rfl, hv, ?_⟩
  exact fun _ h => absurd h List.not_mem_nil

theorem triple_readMsrUntilRqm : Triple (Since l₀ (Disciplined c))
    (readMsrUntilRqm : Driver δ Byte) fun r s => Since l₀ (Disciplined c) s ∧
      ∀ v, r = .ok v → v &&& 0xC0 = 0x80 → Since l₀ (Ready c) s := by
  have hfrom : ∀ n, Triple (Since l₀ (Disciplined c)) (readMsrUntilRqmFrom n : Driver δ Byte)
      fun r s => Since l₀ (Disciplined c) s ∧
        ∀ v, r = .ok v → v &&& 0xC0 = 0x80 → Since l₀ (Ready c) s := by
    intro n
    induction n with
    | zero => exact fun s hs => ⟨hs, nofun⟩
    | succ n ih =>
      refine triple_status.bind_ok fun v => ?_
      rintro s ⟨hd, hready⟩
      by_cases hv : v &&& 0x80 = 0x80
      · rw [if_pos hv]
        exact ⟨hd, fun v' hv' => by cases hv'; exact hready⟩
      · rw [if_neg hv]
        exact ih s hd
  exact hfrom _

/-- A byte to the controller, which is ready for it. -/
theorem triple_portWriteByte_fifo (role : Role) (v : Byte) : Triple (Since l₀ (Ready c))
    (portWriteByte role dataFifo v : Driver δ Unit) fun r s =>
      ∃ a, r = .ok a ∧ Since l₀ (Idle c) s := by
  intro s hs
  refine ⟨(), rfl,
    (hs.turn ready_silent).step rfl fun l hl => ⟨disciplined_concat.2 ⟨hl.1, ?_⟩, ?_⟩⟩
  · intro w hw
    obtain rfl : 0x80 = w := Option.some_inj.1 hw
    obtain ⟨-, a, v', b, hl', hv', hb⟩ := hl
    -- A byte that is written need not be behind an interrupt.
    exact ⟨a, v', b, hl', hv', fun e he => ⟨(hb e he).1, fun h => absurd h.2 (by decide)⟩⟩
  · exact spent_concat (Option.some_ne_none _)

/-- How a part of the request ends: without an error, all has been in order and the next
    access needs the status. -/
def Requested (l₀ : List (Event δ)) (c : Command) (r : Outcome Error Unit) (s : State δ) : Prop :=
  Since l₀ (Disciplined c) s ∧ (r = .ok () → Since l₀ (Idle c) s)

omit [Device δ] in
theorem Since.requested (hs : Since l₀ (Idle c) s) (r : Outcome Error Unit) :
    Requested l₀ c r s := by
  obtain ⟨l, hl, hi⟩ := hs
  exact ⟨⟨l, hl, hi.1⟩, fun _ => ⟨l, hl, hi⟩⟩

theorem triple_sendParametersFrom (i n : ℕ) : Triple (Since l₀ (Idle c))
    (sendParametersFrom i n : Driver δ Unit) (Requested l₀ c) := by
  induction n generalizing i with
  | zero => exact fun s hs => hs.requested _
  | succ n ih =>
    have hmsr : Triple (Since l₀ (Idle c)) (readMsrUntilRqm : Driver δ Byte) fun r s =>
        Since l₀ (Disciplined c) s ∧ ∀ v, r = .ok v → v &&& 0xC0 = 0x80 → Since l₀ (Ready c) s :=
      fun s ⟨l, hl, hi⟩ => triple_readMsrUntilRqm s ⟨l, hl, hi.1⟩
    refine hmsr.bind (fun v => ?_) (fun e s hs => ⟨hs.1, nofun⟩) fun s hs => ⟨hs.1, nofun⟩
    rintro s ⟨hd, hready⟩
    by_cases hv : v &&& 0xc0 = 0x80
    · rw [bind_assert_of_true (decide_eq_true hv), bind_get]
      have hwrite := (triple_portWriteByte_fifo .parameter (s.parameterBytes i)).bind_ok
        fun _ => ih (i + 1)
      exact hwrite s (hready v rfl hv)
    · rw [bind_assert_of_false (decide_eq_false hv)]
      exact ⟨hd, nofun⟩

theorem triple_sendRequest (fuel : ℕ) (c : Command) : Triple (Since l₀ (Disciplined c))
    (sendRequest fuel c : Driver δ Unit) (Requested l₀ c) := by
  have hset : Keeps (Preserves (Since l₀ (Idle c)))
      (when (commandHasInterrupt c) setWaiting : Driver δ Unit) :=
    (keeps_since idle_silent keeps_silent_setWaiting).when
  have hwait : Keeps (Preserves (Since l₀ (Idle c)))
      (when (commandHasInterrupt c) (waitForIrq fuel) : Driver δ Unit) :=
    (keeps_since idle_silent (keeps_silent_waitForIrq fuel)).when
  refine triple_status.bind_ok fun msr => ?_
  rintro s ⟨hd, hready⟩
  by_cases hv : msr &&& 0xc0 = 0x80
  · rw [bind_assert_of_true (decide_eq_true hv)]
    have hrest : Triple (Since l₀ (Ready c)) (do
        portWriteByte .command dataFifo c.toByte
        when (commandHasInterrupt c) setWaiting
        sendParametersFrom 0 c.getParameterCount
        when (commandHasInterrupt c) (waitForIrq fuel) : Driver δ Unit) (Requested l₀ c) := by
      refine (triple_portWriteByte_fifo .command c.toByte).bind_ok fun _ => ?_
      refine hset.triple.bind (fun _ => ?_) (fun _ s hs => hs.requested _)
        fun s hs => hs.requested _
      refine (triple_sendParametersFrom 0 _).bind (fun _ => ?_) (fun _ s hs => ⟨hs.1, nofun⟩)
        fun s hs => ⟨hs.1, nofun⟩
      exact fun s hs => (hwait s (hs.2 rfl)).requested _
    exact hrest s (hready hv)
  · rw [bind_assert_of_false (decide_eq_false hv)]
    exact ⟨hd, nofun⟩

/-! ## The result phase -/

omit [Device δ] in
/-- The discipline is broken for good. -/
theorem keeps_broken {α : Type} {f : Driver δ α} (hf : Keeps (Logs fun _ => True) f) :
    Keeps (Preserves (Since l₀ fun l => ¬Disciplined c l)) f :=
  keeps_since (fun _ _ h _ hl => h (disciplined_concat.1 hl).1) hf

theorem keeps_logs_portReadByte (port : BitVec 16) :
    Keeps (Logs fun _ => True) (portReadByte port : Driver δ Byte) :=
  fun _ => logs_step (fun _ => trivial) rfl trivial

/-- The first result byte is read without the status having been read before it. -/
theorem not_disciplined_receiveResult (i : ℕ) (status : Byte) : Triple (Since l₀ (Idle c))
    (receiveResult i status : Driver δ Unit) fun _ => Since l₀ fun l => ¬Disciplined c l := by
  have hread : Triple (Since l₀ (Idle c)) (portReadByte dataFifo : Driver δ Byte) fun r s =>
      ∃ v, r = .ok v ∧ Since l₀ (fun l => ¬Disciplined c l) s := by
    intro s hs
    refine ⟨_, rfl, (hs.turn idle_silent).step rfl fun l hl hd => ?_⟩
    exact hl.2.not_showed _ _ ((disciplined_concat.1 hd).2 0xC0 (Option.mem_some_self _))
  refine hread.bind_ok fun v => ?_
  have hmodify : Keeps (Logs fun _ => True) (modify fun s : State δ =>
      { s with resultBytes := Function.update s.resultBytes i v } : Driver δ Unit) :=
    fun s => logs_of_log_eq rfl
  refine (keeps_broken (hmodify.bind fun _ => ?_)).triple
  exact (keeps_readMsrUntilRqm (keeps_logs_portReadByte _)).bind fun _ => Keeps.assert _ _

theorem not_disciplined_receiveResults (h : c.getResultByteCount ≠ 0) : Triple (Since l₀ (Idle c))
    (receiveResults c : Driver δ Unit) fun _ => Since l₀ fun l => ¬Disciplined c l := by
  have hmore : ∀ i status, Keeps (Preserves (Since l₀ fun l => ¬Disciplined c l))
      (receiveResult i status : Driver δ Unit) := by
    intro i status
    refine keeps_broken ((keeps_logs_portReadByte _).bind fun v => ?_)
    refine Keeps.bind (fun s => logs_of_log_eq rfl) fun _ => ?_
    exact (keeps_readMsrUntilRqm (keeps_logs_portReadByte _)).bind fun _ => Keeps.assert _ _
  have hfrom : ∀ i n, Keeps (Preserves (Since l₀ fun l => ¬Disciplined c l))
      (receiveResultsFrom i n : Driver δ Unit) := by
    intro i n
    induction n generalizing i with
    | zero => exact Keeps.pure ()
    | succ n ih => exact (hmore i _).bind fun _ => ih (i + 1)
  rw [receiveResults, when, if_pos (decide_eq_true h)]
  -- The first byte is the last one, if there are no more.
  obtain ⟨n, hn⟩ := Nat.exists_eq_succ_of_ne_zero h
  rw [hn, Nat.succ_sub_one]
  cases n with
  | zero => exact not_disciplined_receiveResult 0 0x00
  | succ n =>
    rw [receiveResultsFrom, bind_bind]
    refine (not_disciplined_receiveResult 0 0x50).bind (fun _ => ?_) (fun _ _ => id) fun _ => id
    exact ((hfrom 1 n).bind fun _ => hmore _ _).triple

/-- For every command, every device, and whatever happens between the steps: the accesses
    of `sendCommand` to the data port are in order exactly if there is no result byte to
    read, or the device does not take the bytes of the command, each after few enough looks
    at its status, and interrupt in time. -/
theorem disciplined_sendCommand_iff (fuel : ℕ) (c : Command) (s : State δ) :
    ∃ l, (sendCommand fuel c s).2.log = s.log ++ l ∧
      (Disciplined c l ↔ c.getResultByteCount = 0 ∨ ¬∃ s', TakesRequest fuel c s s') := by
  have hstart : Since s.log (Disciplined c) s := ⟨[], (List.append_nil _).symm, disciplined_nil⟩
  obtain ⟨hd, hidle⟩ := triple_sendRequest fuel c s hstart
  have htakes : ∀ s', sendRequest fuel c s = (.ok (), s') ↔ TakesRequest fuel c s s' :=
    fun s' => sendRequest_eq_ok_iff
  rw [sendCommand_eq]
  rcases hr : sendRequest fuel c s with ⟨r, s'⟩
  rw [hr] at hd hidle htakes
  obtain ⟨l, hl, hd⟩ := hd
  cases r with
  | ok u =>
    rw [bind_of_ok hr]
    by_cases hcount : c.getResultByteCount = 0
    · rw [receiveResults, when, if_neg (by simpa using hcount)]
      exact ⟨l, hl, iff_of_true hd (.inl hcount)⟩
    · obtain ⟨l, hl, hn⟩ := not_disciplined_receiveResults hcount s' (hidle rfl)
      refine ⟨l, hl, iff_of_false hn fun h => h.elim hcount fun hne => hne ?_⟩
      exact ⟨s', (htakes s').1 rfl⟩
  | error e =>
    rw [bind_of_error hr]
    refine ⟨l, hl, iff_of_true hd (.inr ?_)⟩
    rintro ⟨t, ht⟩
    cases congrArg Prod.fst ((htakes t).2 ht)
  | running =>
    rw [bind_of_running hr]
    refine ⟨l, hl, iff_of_true hd (.inr ?_)⟩
    rintro ⟨t, ht⟩
    cases congrArg Prod.fst ((htakes t).2 ht)

/-- A controller that executes a command without parameters before the driver goes on. -/
def versionState : State Controller :=
  .start (Controller.expecting 0) fun n => ⟨if n = 2 then [.advance] else [], .timer⟩

/-- The result byte of `VERSION` is read although the status has not shown that it is
    there, in a run without an error. -/
theorem not_disciplined_version : (sendCommand 0 .version versionState).1 = .ok () ∧
    ∃ l, (sendCommand 0 .version versionState).2.log = versionState.log ++ l ∧
      ¬Disciplined .version l := by
  refine ⟨by decide +kernel, ?_⟩
  have hstart : Since versionState.log (Disciplined .version) versionState :=
    ⟨[], rfl, disciplined_nil⟩
  have hok : (sendRequest 0 .version versionState).1 = .ok () := by decide +kernel
  have hidle := (triple_sendRequest 0 .version versionState hstart).2 hok
  rw [sendCommand_eq]
  rcases hr : sendRequest 0 .version versionState with ⟨r, s⟩
  rw [hr] at hok hidle
  cases r with
  | ok u =>
    rw [bind_of_ok hr]
    exact not_disciplined_receiveResults (by decide) s hidle
  | error e => exact nomatch hok
  | running => exact nomatch hok

end KessokuOS.Floppy
