import KessokuOS.Drivers.Ps2.Initialize
import KessokuOS.Lib.I8042

/-!
# The initialisation and the controller

What the ports give is arbitrary in a run of the driver. It is what a controller gives if
the controller can replay the accesses of the run (`replay`).

`Runs` tells what a routine makes of a controller that can. A command is taken within two
accesses (`runs_command`), a byte is sent (`runs_sendToDevice`) and an answer read
(`runs_getResponse`) in at most two attempts, and a write of the configuration and a test
are made of these (`runs_writeConfig`, `runs_runTest`).

* `initialize_configures`: the initialisation succeeds, and the configuration is the one
  it is to be, except that it disables the clock of the first device.
-/

namespace KessokuOS

namespace PS2

open Routine

/-! ## Replays -/

section Replay

open I8042

variable (chip : I8042.Chip)

/-- An access to a controller, which has to read what it says. -/
def access (p : Port) : PortAccess → Option Port
  | .readByte port v =>
    if port = dataPort then if (p.readData chip).1 = v then some (p.readData chip).2 else none
    else if port = statusRegisterPort then
      if (p.readStatus chip).1 = v then some (p.readStatus chip).2 else none
    else some (p.next (p.settle chip))
  | .writeByte port v =>
    if port = dataPort then some (p.write chip (.data v))
    else if port = commandRegisterPort then some (p.write chip (.command v))
    else some (p.next (p.settle chip))

def replay (p : Port) (l : List PortAccess) : Option Port := l.foldlM (access chip) p

/-- The routine adds accesses to the log. A controller with `G` that can replay them is
    one with `M` behind, along with the outcome. It is one of those behind `p`. -/
def Runs {α : Type} (p : Port) (G : Port → Prop) (f : Driver α)
    (M : Outcome Error α → Port → Prop) : Prop :=
  ∀ s, ∃ l, (f s).2.log = s.log ++ l ∧
    ∀ q q', q.Follows p → G q → replay chip q l = some q' → M (f s).1 q'

variable {chip} {p q q' : Port} {l : List PortAccess} {α β : Type} {G G' : Port → Prop}
  {f : Driver α} {M : Outcome Error α → Port → Prop} {Q : Outcome Error β → Port → Prop}

theorem access_follows {a : PortAccess} (h : access chip q a = some q') : q'.Follows q := by
  cases a with
  | readByte port v =>
    simp only [access] at h
    split_ifs at h <;> exact Option.some.inj h ▸ .next q _
  | writeByte port v =>
    simp only [access] at h
    split_ifs at h <;> exact Option.some.inj h ▸ .next q _

theorem replay_follows (h : replay chip q l = some q') : q'.Follows q := by
  induction l generalizing q with
  | nil => exact Option.some.inj h ▸ .refl q
  | cons a l ih =>
    obtain ⟨q₁, h₁, h⟩ := Option.bind_eq_some_iff.1 h
    exact (ih h).trans (access_follows h₁)

theorem Runs.bind {g : α → Driver β} (hf : Runs chip p G f M)
    (hg : ∀ a, Runs chip p (M (.ok a)) (g a) Q) (herror : ∀ e q, M (.error e) q → Q (.error e) q)
    (hrunning : ∀ q, M .running q → Q .running q) : Runs chip p G (f >>= g) Q := by
  intro s
  obtain ⟨l, hl, hq⟩ := hf s
  rcases h : f s with ⟨o, s'⟩
  rw [h] at hl hq
  cases o with
  | ok a =>
    obtain ⟨l', hl', hq'⟩ := hg a s'
    rw [bind_of_ok h]
    refine ⟨l ++ l', by rw [hl', hl, List.append_assoc], fun q q' hp hG hreplay => ?_⟩
    rw [replay, List.foldlM_append] at hreplay
    obtain ⟨q₁, h₁, h₂⟩ := Option.bind_eq_some_iff.1 hreplay
    exact hq' q₁ q' ((replay_follows h₁).trans hp) (hq q q₁ hp hG h₁) h₂
  | error e =>
    rw [bind_of_error h]
    exact ⟨l, hl, fun q q' hp hG hreplay => herror e q' (hq q q' hp hG hreplay)⟩
  | running =>
    rw [bind_of_running h]
    exact ⟨l, hl, fun q q' hp hG hreplay => hrunning q' (hq q q' hp hG hreplay)⟩

theorem Runs.mono {M' : Outcome Error α → Port → Prop} (hf : Runs chip p G f M)
    (hG : ∀ q, G' q → G q) (hM : ∀ r q, M r q → M' r q) : Runs chip p G' f M' := by
  intro s
  obtain ⟨l, hl, hq⟩ := hf s
  exact ⟨l, hl, fun q q' hp hG' hreplay => hM _ _ (hq q q' hp (hG q hG') hreplay)⟩

/-- Behind a routine that succeeds with the value `a`. -/
def Gives {α : Type} (a : α) (I : Port → Prop) (r : Outcome Error α) (q : Port) : Prop :=
  r = .ok a ∧ I q

theorem Runs.then {g : Driver β} {I : Port → Prop} {f : Driver Unit}
    (hf : Runs chip p G f (Gives () I)) (hg : Runs chip p I g Q) :
    Runs chip p G (f >>= fun _ => g) Q :=
  hf.bind (fun _ => hg.mono (fun _ h => h.2) fun _ _ h => h) (fun _ _ h => nomatch h.1)
    fun _ h => nomatch h.1

theorem Runs.bind_value {I : α → Port → Prop} {g : α → Driver β}
    (hf : Runs chip p G f fun r q => ∃ a, r = .ok a ∧ I a q)
    (hg : ∀ a, Runs chip p (I a) (g a) Q) : Runs chip p G (f >>= g) Q := by
  refine hf.bind (fun a => (hg a).mono ?_ fun _ _ h => h) ?_ ?_
  · rintro q ⟨_, ⟨⟩, h⟩
    exact h
  · rintro e q ⟨_, h, -⟩
    exact nomatch h
  · rintro q ⟨_, h, -⟩
    exact nomatch h

/-- An access that gives a value. -/
theorem runs_access {a : PortAccess} {v : α}
    (hf : ∀ s, (f s).1 = .ok v ∧ (f s).2.log = s.log ++ [a])
    {I : Port → Prop} (hI : ∀ q q', q.Follows p → G q → access chip q a = some q' → I q') :
    Runs chip p G f (Gives v I) := by
  intro s
  refine ⟨[a], (hf s).2, fun q q' hp hG hreplay => ⟨(hf s).1, hI q q' hp hG ?_⟩⟩
  obtain ⟨q₁, h₁, h⟩ := Option.bind_eq_some_iff.1 hreplay
  rwa [← Option.some.inj h]

/-! ## The log -/

/-- Accesses are added to the log. -/
def Extends (s s' : State) : Prop := s.log <+: s'.log

instance : Std.Refl Extends := ⟨fun s => List.prefix_refl s.log⟩

instance : IsTrans State Extends := ⟨fun _ _ _ h h' => h.trans h'⟩

theorem extends_portReadByte (port : BitVec 16) : Keeps Extends (portReadByte port) :=
  fun s => List.prefix_append s.log _

theorem extends_portWriteByte (port : BitVec 16) (v : Byte) :
    Keeps Extends (portWriteByte port v) := fun s => List.prefix_append s.log _

theorem Extends.retry (hf : Keeps Extends f) (n : ℕ) : Keeps Extends (Routine.retry f n) := by
  induction n with
  | zero => exact hf
  | succ n ih => exact hf.orElse ih

theorem extends_sendToDevice (v : Byte) : Keeps Extends (sendToDevice v) :=
  Extends.retry (.bind (extends_portReadByte _) fun _ => .bind (.assert _ _) fun _ =>
    extends_portWriteByte _ _) _

theorem extends_getResponse : Keeps Extends getResponse :=
  Extends.retry (.bind (extends_portReadByte _) fun _ => .bind (.assert _ _) fun _ =>
    extends_portReadByte _) _

theorem extends_writeConfig (v : Byte) : Keeps Extends (writeConfig v) :=
  .bind (extends_portWriteByte _ _) fun _ => .bind (extends_sendToDevice v) fun _ =>
    extends_portWriteByte _ _

theorem extends_runTest (command expected : Byte) (message : String) :
    Keeps Extends (runTest command expected message) :=
  .bind (extends_portWriteByte _ _) fun _ => .bind extends_getResponse fun _ =>
    .when (.bind (fun s => List.prefix_refl s.log) fun _ => .throw _)

theorem extends_configure (configByte : Byte) : Keeps Extends (configure configByte) :=
  .bind (extends_writeConfig _) fun _ => .bind (extends_runTest _ _ _) fun _ =>
    .bind (extends_writeConfig _) fun _ => .bind (extends_runTest _ _ _) fun _ =>
    .bind (extends_portWriteByte _ _) fun _ => .bind (extends_portWriteByte _ _) fun _ =>
    .bind (extends_portWriteByte _ _) fun _ => extends_writeConfig _

theorem runs_of_extends (hf : Keeps Extends f) (hG : ∀ q, ¬G q) : Runs chip p G f M := by
  intro s
  obtain ⟨l, hl⟩ := hf s
  exact ⟨l, hl.symm, fun q q' _ hq => absurd hq (hG q)⟩

/-! ## Accesses -/

/-- What the next access leaves. -/
theorem runs_ioWait {I : Port → Prop}
    (hI : ∀ q, q.Follows p → G q → I (q.next (q.settle chip))) :
    Runs chip p G ioWait (Gives () I) := by
  refine runs_access (fun s => ⟨rfl, rfl⟩) fun q q' hp hq haccess => ?_
  rw [← Option.some.inj haccess]
  exact hI q hp hq

/-- What is written is in the input buffer. -/
theorem runs_portWriteByte {port : BitVec 16} {v : Byte} {w : Write} {I : I8042.State → Prop}
    (J : I8042.State → Prop)
    (hw : port = dataPort ∧ w = .data v ∨ port = commandRegisterPort ∧ w = .command v)
    (hG : ∀ q, q.Follows p → G q → I (q.settle chip)) (hI : ∀ s, I s → s.input = none) :
    Runs chip p G (portWriteByte port v) (Gives () fun q => I8042.State.Pending w I J q.state) := by
  refine runs_access (fun s => ⟨rfl, rfl⟩) fun q q' hp hq haccess => ?_
  obtain rfl : q.write chip w = q' := by
    rcases hw with ⟨rfl, rfl⟩ | ⟨rfl, rfl⟩
    · exact Option.some.inj haccess
    · exact Option.some.inj haccess
  exact I8042.State.pending_write (hG q hp hq) (hI _ (hG q hp hq))

theorem runs_portReadByte {port : BitVec 16} {I : Byte → Port → Prop}
    (hI : ∀ q q' v, q.Follows p → G q → access chip q (.readByte port v) = some q' → I v q') :
    Runs chip p G (portReadByte port) fun r q => ∃ v, r = .ok v ∧ I v q := by
  intro s
  refine ⟨[.readByte port (s.values 0)], rfl,
    fun q q' hp hG hreplay => ⟨_, rfl, hI q q' _ hp hG ?_⟩⟩
  obtain ⟨q₁, h₁, h⟩ := Option.bind_eq_some_iff.1 hreplay
  rwa [← Option.some.inj h]

/-- The bits of the status tell of the buffers. -/
theorem runs_status {I : Port → Prop}
    (hI : ∀ q, q.Follows p → G q → I (q.next (q.settle chip))) :
    Runs chip p G (portReadByte statusRegisterPort) fun r q => ∃ v, r = .ok v ∧
      (v &&& 0x01 = 0 ↔ q.state.output = none) ∧ (v &&& 0x02 = 0 ↔ q.state.input = none) ∧ I q := by
  refine runs_portReadByte fun q q' v hp hG haccess => ?_
  have hne : statusRegisterPort ≠ dataPort := by decide
  rw [access, if_neg hne, if_pos rfl] at haccess
  split_ifs at haccess with hv
  rw [← Option.some.inj haccess, ← hv]
  exact ⟨I8042.State.status_output _ _, I8042.State.status_input _ _, hI q hp hG⟩

/-- What is read has been in the output buffer. -/
theorem runs_data {I : I8042.State → Prop} {J : Byte → I8042.State → Prop}
    (hG : ∀ q, q.Follows p → G q → I (q.settle chip))
    (hJ : ∀ s noise, I s → J (s.output.getD noise) { s with output := none }) :
    Runs chip p G (portReadByte dataPort) fun r q => ∃ v, r = .ok v ∧ J v q.state := by
  refine runs_portReadByte fun q q' v hp hq haccess => ?_
  rw [access, if_pos rfl] at haccess
  split_ifs at haccess with hv
  rw [← Option.some.inj haccess, ← hv]
  exact hJ _ _ (hG q hp hq)

/-! ## Attempts -/

theorem Runs.orElse {g : Driver α} {M' : Outcome Error α → Port → Prop}
    (hf : Runs chip p G f M) (hg : Runs chip p G' g M')
    (herror : ∀ e q, M (.error e) q → G' q) (hok : ∀ a q, M (.ok a) q → M' (.ok a) q)
    (hrunning : ∀ q, M .running q → M' .running q) : Runs chip p G (Routine.orElse f g) M' := by
  intro s
  obtain ⟨l, hl, hq⟩ := hf s
  rcases h : f s with ⟨o, s'⟩
  rw [h] at hl hq
  cases o with
  | ok a =>
    rw [Routine.orElse, h]
    exact ⟨l, hl, fun q q' hp hG hreplay => hok a q' (hq q q' hp hG hreplay)⟩
  | error e =>
    obtain ⟨l', hl', hq'⟩ := hg s'
    rw [orElse_of_error h]
    refine ⟨l ++ l', by rw [hl', hl, List.append_assoc], fun q q' hp hG hreplay => ?_⟩
    rw [replay, List.foldlM_append] at hreplay
    obtain ⟨q₁, h₁, h₂⟩ := Option.bind_eq_some_iff.1 hreplay
    exact hq' q₁ q' ((replay_follows h₁).trans hp) (herror e q₁ (hq q q₁ hp hG h₁)) h₂
  | running =>
    rw [Routine.orElse, h]
    exact ⟨l, hl, fun q q' hp hG hreplay => hrunning q' (hq q q' hp hG hreplay)⟩

/-- A first attempt that succeeds. -/
theorem Runs.retry {a : α} {I : Port → Prop} (hf : Runs chip p G f (Gives a I)) (n : ℕ) :
    Runs chip p G (Routine.retry f n) (Gives a I) := by
  induction n with
  | zero => exact hf
  | succ n ih =>
    exact hf.orElse ih (fun _ _ h => nomatch h.1) (fun _ _ h => h) fun _ h => nomatch h.1

/-- A first attempt that succeeds or leaves what makes the second one succeed. -/
theorem Runs.retry_succ {a : α} {I H : Port → Prop}
    (hf : Runs chip p G f fun r q => Gives a I r q ∨ (∃ e, r = .error e) ∧ H q)
    (hf' : Runs chip p H f (Gives a I)) (n : ℕ) :
    Runs chip p G (Routine.retry f (n + 1)) (Gives a I) := by
  refine hf.orElse (hf'.retry n) ?_ ?_ ?_
  · rintro e q (⟨h, -⟩ | ⟨-, hq⟩)
    · exact nomatch h
    · exact hq
  · rintro a' q (h | ⟨⟨e, h⟩, -⟩)
    · exact h
    · exact nomatch h
  · rintro q (⟨h, -⟩ | ⟨⟨e, h⟩, -⟩)
    · exact nomatch h
    · exact nomatch h

theorem runs_assert {c : Bool} {e : Error} {g : Unit → Driver β}
    (htrue : c = true → Runs chip p G (g ()) Q) (hfalse : c = false → ∀ q, G q → Q (.error e) q) :
    Runs chip p G (assert c e >>= g) Q := by
  cases c with
  | true => exact htrue rfl
  | false =>
    refine fun s => ⟨[], (List.append_nil s.log).symm, fun q q' hp hG hreplay => ?_⟩
    exact Option.some.inj hreplay ▸ hfalse rfl q hG

section Attempts

variable {w : Write} {I J : I8042.State → Prop} {b v : Byte}

/-- An answer that is waiting is read. -/
theorem runs_answer (hJ : p.Settled J) (houtput : ∀ s, J s → s.output = some b)
    (hG : ∀ q, G q → J q.state) :
    Runs chip p G (portReadByte dataPort)
      (Gives b fun q => ∃ s, J s ∧ q.state = { s with output := none }) := by
  refine (runs_data (I := J) (J := fun v s => v = b ∧ ∃ s', J s' ∧ s = { s' with output := none })
    (fun q hp hq => (hJ.follows hp).settle (hG q hq)) fun s noise hs => ?_).mono (fun _ h => h) ?_
  · rw [houtput s hs]
    exact ⟨rfl, s, hs, rfl⟩
  · rintro r q ⟨_, rfl, rfl, h⟩
    exact ⟨rfl, h⟩

theorem runs_getResponseImmediate (hJ : p.Settled J) (houtput : ∀ s, J s → s.output = some b)
    (hG : ∀ q, q.Follows p → G q → J (q.settle chip)) :
    Runs chip p G getResponseImmediate
      (Gives b fun q => ∃ s, J s ∧ q.state = { s with output := none }) := by
  refine (runs_status (I := fun q => J q.state) hG).bind_value fun status => ?_
  refine runs_assert (fun _ => runs_answer hJ houtput fun q hq => hq.2.2) fun hstatus q hq => ?_
  have hnone : q.state.output = none := hq.1.1 (not_not.1 (of_decide_eq_false hstatus))
  rw [houtput _ hq.2.2] at hnone
  exact nomatch hnone

/-- A byte is sent through an empty input buffer. -/
theorem runs_send (J' : I8042.State → Prop) (hJ : p.Settled J) (hinput : ∀ s, J s → s.input = none)
    (hG : ∀ q, G q → J q.state) :
    Runs chip p G (portWriteByte dataPort v)
      (Gives () fun q => I8042.State.Pending (.data v) J J' q.state) :=
  runs_portWriteByte J' (.inl ⟨rfl, rfl⟩) (fun q hp hq => (hJ.follows hp).settle (hG q hq)) hinput

theorem runs_sendToDeviceImmediate (J' : I8042.State → Prop) (hJ : p.Settled J)
    (hinput : ∀ s, J s → s.input = none) (hG : ∀ q, q.Follows p → G q → J (q.settle chip)) :
    Runs chip p G (sendToDeviceImmediate v)
      (Gives () fun q => I8042.State.Pending (.data v) J J' q.state) := by
  refine (runs_status (I := fun q => J q.state) hG).bind_value fun status => ?_
  refine runs_assert (fun _ => runs_send J' hJ hinput fun q hq => hq.2.2) fun hstatus q hq => ?_
  exact absurd (hq.2.1.2 (hinput _ hq.2.2)) (of_decide_eq_false hstatus)

variable (hprompt : p.Prompt 2) (hI : p.Settled I) (hJ : p.Settled J)
  (hexec : ∀ s, I s → J (s.exec chip w))

include hprompt hI hJ hexec

theorem due_of_pending (hG : ∀ q, G q → I8042.State.Pending w I J q.state) :
    ∀ q, q.Follows p → G q → Port.Due w I J (q.next (q.settle chip)) := fun q hp hq =>
  Port.due_next (hp.prompt hprompt) (hI.follows hp) (hJ.follows hp) hexec (hG q hq)

omit hprompt in
theorem settle_of_due : ∀ q, q.Follows p → Port.Due w I J q → J (q.settle chip) := fun _ hp hq =>
  hq.settle (hI.follows hp) (hJ.follows hp) hexec

/-- An answer to come is read in the end. -/
theorem runs_getResponse (hnone : ∀ s, I s → s.output = none)
    (houtput : ∀ s, J s → s.output = some b)
    (hG : ∀ q, G q → I8042.State.Pending w I J q.state) :
    Runs chip p G getResponse
      (Gives b fun q => ∃ s, J s ∧ q.state = { s with output := none }) := by
  have hdue := due_of_pending hprompt hI hJ hexec hG
  refine Runs.retry_succ (H := Port.Due w I J) ?_ ?_ 1
  · refine (runs_status hdue).bind_value fun status => ?_
    refine runs_assert (fun hstatus => ?_) fun hstatus q hq => .inr ⟨⟨_, rfl⟩, hq.2.2⟩
    refine (runs_answer hJ houtput fun q hq => ?_).mono (fun _ h => h) fun _ _ h => .inl h
    have hne : q.state.output ≠ none := fun h => of_decide_eq_true hstatus (hq.1.2 h)
    exact hq.2.2.resolve_right fun h => hne (hnone { q.state with input := none } h.1.2)
  · exact runs_getResponseImmediate hJ houtput (settle_of_due hI hJ hexec)

/-- A byte is sent when the input buffer is empty. -/
theorem runs_sendToDevice (J' : I8042.State → Prop) (hinput : ∀ s, J s → s.input = none)
    (hG : ∀ q, G q → I8042.State.Pending w I J q.state) :
    Runs chip p G (sendToDevice v)
      (Gives () fun q => I8042.State.Pending (.data v) J J' q.state) := by
  have hdue := due_of_pending hprompt hI hJ hexec hG
  refine Runs.retry_succ (H := Port.Due w I J) ?_ ?_ 2
  · refine (runs_status hdue).bind_value fun status => ?_
    refine runs_assert (fun hstatus => ?_) fun hstatus q hq => .inr ⟨⟨_, rfl⟩, hq.2.2⟩
    refine (runs_send J' hJ hinput fun q hq => ?_).mono (fun _ h => h) fun _ _ h => .inl h
    have hempty : q.state.input = none := hq.2.1.1 (of_decide_eq_true hstatus)
    exact hq.2.2.resolve_right fun h => Option.some_ne_none w (h.1.1.symm.trans hempty)
  · exact runs_sendToDeviceImmediate J' hJ hinput (settle_of_due hI hJ hexec)

end Attempts

/-! ## The controller at rest -/

/-- The input buffer is empty, the output buffer meets `O`, and `x` has been taken. -/
structure Rests (O : Option Byte → Prop) (t : Option Target) (c : Byte) (x : List Write)
    (k : I8042.State) : Prop where
  input_eq : k.input = none
  output : O k.output
  target_eq : k.target = t
  config_eq : k.config = c
  taken_eq : k.taken = x

/-- The device does not end that. -/
def Quiet (p : Port) (O : Option Byte → Prop) (c : Byte) : Prop :=
  ∀ b, p.Happens (.receive b) → c &&& firstClock = 0 → O none → O (some b)

section Rests

variable {O : Option Byte → Prop} {t : Option Target} {c : Byte} {x x' : List Write}
  {k : I8042.State}

theorem Quiet.settled (h : Quiet p O c) : p.Settled (Rests O t c x) := by
  refine fun ts hts => ⟨fun s hs => hs.input_eq, fun b hb s hs => ?_⟩
  rw [I8042.State.receive]
  split_ifs with hb'
  · exact ⟨hs.input_eq, h b (hts _ hb) (hs.config_eq ▸ hb'.2) (hb'.1 ▸ hs.output), hs.target_eq,
      hs.config_eq, hs.taken_eq⟩
  · exact hs

theorem quiet_of_disabled (h : c &&& firstClock ≠ 0) : Quiet p O c := fun _ _ h' => absurd h' h

theorem quiet_true : Quiet p (fun _ => True) c := fun _ _ _ _ => trivial

theorem quiet_some {b : Byte} : Quiet p (· = some b) c := fun _ _ _ h => nomatch h

namespace Rests

variable (h : Rests O t c x k)

include h

theorem record (w : Write) : (k.record w).taken = x ++ [w] := congrArg (· ++ [w]) h.taken_eq

theorem disableFirst : Rests O none (c ||| firstClock) (x ++ [.command disableFirstPs2])
    (k.exec chip (.command disableFirstPs2)) :=
  ⟨h.input_eq, h.output, rfl, congrArg (· ||| firstClock) h.config_eq, h.record _⟩

theorem disableSecond : Rests O none (c ||| secondClock) (x ++ [.command disableSecondPs2])
    (k.exec chip (.command disableSecondPs2)) :=
  ⟨h.input_eq, h.output, rfl, congrArg (· ||| secondClock) h.config_eq, h.record _⟩

theorem enableFirst : Rests O none (c &&& ~~~firstClock) (x ++ [.command enableFirstPs2])
    (k.exec chip (.command enableFirstPs2)) :=
  ⟨h.input_eq, h.output, rfl, congrArg (· &&& ~~~firstClock) h.config_eq, h.record _⟩

theorem readConfig : Rests (· = some c) none c (x ++ [.command readControllerConfigByte])
    (k.exec chip (.command readControllerConfigByte)) :=
  ⟨h.input_eq, congrArg some h.config_eq, rfl, h.config_eq, h.record _⟩

theorem writeConfig : Rests O (some .config) c (x ++ [.command writeControllerConfigByte])
    (k.exec chip (.command writeControllerConfigByte)) :=
  ⟨h.input_eq, h.output, rfl, h.config_eq, h.record _⟩

theorem selfTest : Rests (· = some chip.selfTest) none (chip.reset c)
    (x ++ [.command performSelfTest]) (k.exec chip (.command performSelfTest)) :=
  ⟨h.input_eq, rfl, rfl, congrArg chip.reset h.config_eq, h.record _⟩

theorem testFirst : Rests (· = some chip.testFirst) none c (x ++ [.command testFirstPs2Port])
    (k.exec chip (.command testFirstPs2Port)) :=
  ⟨h.input_eq, rfl, rfl, h.config_eq, h.record _⟩

/-- What is read is not there any more. -/
theorem clear : Rests (· = none) t c x { k with output := none } :=
  ⟨h.input_eq, rfl, h.target_eq, h.config_eq, h.taken_eq⟩

end Rests

theorem Rests.data {v : Byte} (h : Rests O (some .config) c x k) :
    Rests O none v (x ++ [.data v]) (k.exec chip (.data v)) := by
  have hexec : k.exec chip (.data v) =
      { k.record (.data v) with target := none, config := v } := by
    rw [I8042.State.exec, I8042.State.execData, I8042.State.target_record, h.target_eq]
  rw [hexec]
  exact ⟨h.input_eq, h.output, rfl, rfl, h.record _⟩

/-! ## The initialisation -/

section Initialize

variable {t' : Option Target} {v b c' : Byte} {I : I8042.State → Prop} (hprompt : p.Prompt 2)

/-- A command is written, and there is time to take it. -/
theorem runs_command {J : I8042.State → Prop} {command : Byte} (hprompt : p.Prompt 2)
    (hI : p.Settled I) (hJ : p.Settled J) (hinput : ∀ s, I s → s.input = none)
    (hexec : ∀ s, I s → J (s.exec chip (.command command)))
    (hG : ∀ q, q.Follows p → G q → I (q.settle chip)) {g : Driver β}
    (hg : Runs chip p (Port.Due (.command command) I J) g Q) :
    Runs chip p G (do portWriteByte commandRegisterPort command; ioWait; g) Q := by
  refine (runs_portWriteByte J (.inr ⟨rfl, rfl⟩) hG hinput).then ?_
  exact (runs_ioWait (due_of_pending hprompt hI hJ hexec fun _ h => h)).then hg

theorem runs_writeConfig (hprompt : p.Prompt 2) (hc : Quiet p O c) (hv : Quiet p O v)
    (hG : ∀ q, q.Follows p → G q → Rests O t c x (q.settle chip)) :
    Runs chip p G (writeConfig v)
      (Gives () (Port.Due (.data v)
        (Rests O (some .config) c (x ++ [.command writeControllerConfigByte]))
        (Rests O none v (x ++ [.command writeControllerConfigByte] ++ [.data v])))) := by
  refine (runs_portWriteByte (Rests O (some .config) c (x ++ [.command writeControllerConfigByte]))
    (.inr ⟨rfl, rfl⟩) hG fun _ h => h.input_eq).then ?_
  refine (runs_sendToDevice hprompt hc.settled hc.settled (fun _ h => h.writeConfig)
    (Rests O none v (x ++ [.command writeControllerConfigByte] ++ [.data v]))
    (fun _ h => h.input_eq) fun _ h => h).then ?_
  exact runs_ioWait (due_of_pending hprompt hc.settled hv.settled (fun _ h => h.data) fun _ h => h)

/-- A failure that does not occur. -/
theorem runs_fail {d : Bool} {e : Error} {f : Vga.Screen → Vga.Screen} {I : Port → Prop}
    (hG : ∀ q, G q → d = false ∧ I q) :
    Runs chip p G (when d do display f; throw e) (Gives () I) := by
  cases d with
  | true =>
    refine fun s => ⟨[], (List.append_nil s.log).symm, fun q q' hp hq _ => ?_⟩
    exact nomatch (hG q hq).1
  | false =>
    refine fun s => ⟨[], (List.append_nil s.log).symm, fun q q' hp hq hreplay => ⟨rfl, ?_⟩⟩
    exact Option.some.inj hreplay ▸ (hG q hq).2

/-- A test that gives the result expected. -/
theorem runs_runTest {command : Byte} {message : String} (hprompt : p.Prompt 2)
    (hc : Quiet p (· = none) c)
    (hexec : ∀ s, Rests (· = none) t c x s →
      Rests (· = some b) t' c' x' (s.exec chip (.command command)))
    (hG : ∀ q, q.Follows p → G q → Rests (· = none) t c x (q.settle chip)) :
    Runs chip p G (runTest command b message)
      (Gives () fun q => Rests (· = none) t' c' x' q.state) := by
  refine (runs_portWriteByte (Rests (· = some b) t' c' x') (.inr ⟨rfl, rfl⟩) hG
    fun _ h => h.input_eq).then ?_
  refine Runs.bind (runs_getResponse hprompt hc.settled quiet_some.settled hexec
    (fun _ h => h.output) (fun _ h => h.output) fun _ h => h) (fun v => ?_) ?_ ?_
  · refine runs_fail ?_
    rintro q ⟨⟨⟩, s, hs, hq⟩
    exact ⟨decide_eq_false (not_not.2 rfl), hq ▸ hs.clear⟩
  · exact fun e q h => nomatch h.1
  · exact fun q h => nomatch h.1

theorem Runs.post {M' : Outcome Error α → Port → Prop} (hf : Runs chip p G f M)
    (hM : ∀ r q, q.Follows p → M r q → M' r q) : Runs chip p G f M' := by
  intro s
  obtain ⟨l, hl, hq⟩ := hf s
  exact ⟨l, hl, fun q q' hp hG hreplay =>
    hM _ _ ((replay_follows hreplay).trans hp) (hq q q' hp hG hreplay)⟩

/-- The device does not send anything, or the self test leaves its clock disabled where
    the configuration is `c`. Otherwise, a byte sent behind the self test can be taken for
    the result of the next test. -/
def QuietReset (chip : I8042.Chip) (p : Port) (c : Byte) : Prop :=
  ∀ b, p.Happens (.receive b) → chip.reset c &&& firstClock ≠ 0

theorem QuietReset.quiet (h : QuietReset chip p c) : Quiet p (· = none) (chip.reset c) :=
  fun b hb h' => absurd h' (h b hb)

theorem Rests.any {k : I8042.State} (h : Rests O t c x k) : Rests (fun _ => True) t c x k :=
  ⟨h.input_eq, trivial, h.target_eq, h.config_eq, h.taken_eq⟩

/-- What the controller takes, for a byte written to a port. -/
def writeOf (w : BitVec 16 × Byte) : Write := if w.1 = dataPort then .data w.2 else .command w.2

/-- With the clock of the device disabled, it stays so until the end. -/
theorem runs_configure (hprompt : p.Prompt 2) (hself : chip.selfTest = 0x55)
    (htest : chip.testFirst = 0x00) (hreset : QuietReset chip p (c &&& 0x34))
    (hc : c &&& firstClock ≠ 0)
    (hG : ∀ q, G q → Rests (· = none) t c x q.state) :
    Runs chip p G (configure c) (Gives () fun q =>
      Rests (fun _ => True) none (c &&& 0x34 ||| 0x01) (x ++ (configureScript c).map writeOf)
        (q.settle chip)) := by
  have hquiet : Quiet p (· = none) c := quiet_of_disabled hc
  have hmask : ∀ c : Byte, c &&& firstClock ≠ 0 → c &&& 0x34 &&& firstClock ≠ 0 := by
    decide +kernel
  have hquiet' : Quiet p (· = none) (c &&& 0x34) := quiet_of_disabled (hmask c hc)
  -- What has been taken behind the tests.
  obtain ⟨y, hy⟩ : ∃ y, x ++ [.command writeControllerConfigByte] ++ [.data (c &&& 0x34)] ++
      [.command performSelfTest] ++ [.command writeControllerConfigByte] ++
      [.data (c &&& 0x34)] ++ [.command testFirstPs2Port] = y := ⟨_, rfl⟩
  have htaken : x ++ (configureScript c).map writeOf =
      y ++ [.command enableFirstPs2] ++ [.command writeControllerConfigByte] ++
        [.data (c &&& 0x34 ||| 0x01)] := by
    rw [← hy]
    simp only [List.append_assoc]
    rfl
  refine (runs_writeConfig hprompt hquiet hquiet' fun q hp hq =>
    (hquiet.settled.follows hp).settle (hG q hq)).then ?_
  refine (runs_runTest hprompt hquiet' (fun s hs => hself ▸ hs.selfTest)
    (settle_of_due hquiet.settled hquiet'.settled fun _ h => h.data)).then ?_
  refine (runs_writeConfig hprompt hreset.quiet hquiet' fun q hp hq =>
    (hreset.quiet.settled.follows hp).settle hq).then ?_
  refine (runs_runTest hprompt hquiet' (fun s hs => htest ▸ hs.testFirst)
    (settle_of_due hreset.quiet.settled hquiet'.settled fun _ h => h.data)).then ?_
  refine (runs_ioWait (I := fun q => Rests (· = none) none (c &&& 0x34) y q.state) fun q hp hq =>
    (hquiet'.settled.follows hp).settle (hy ▸ hq)).then ?_
  -- From here on, the device may send.
  refine runs_command (I := Rests (fun _ => True) none (c &&& 0x34) y) hprompt quiet_true.settled
    quiet_true.settled (fun _ h => h.input_eq) (fun _ h => h.enableFirst)
    (fun q hp hq => (quiet_true.settled.follows hp).settle hq.any) ?_
  refine (runs_writeConfig hprompt quiet_true quiet_true
    (settle_of_due quiet_true.settled quiet_true.settled fun _ h => h.enableFirst)).post ?_
  rintro r q hp ⟨hr, hq⟩
  rw [htaken]
  exact ⟨hr, settle_of_due quiet_true.settled quiet_true.settled (fun _ h => h.data) q hp hq⟩

theorem runs_initializeController (hprompt : p.Prompt 2) (hself : chip.selfTest = 0x55)
    (htest : chip.testFirst = 0x00)
    (hreset : QuietReset chip p ((c ||| firstClock ||| secondClock) &&& 0x34))
    (hG : ∀ q, q.Follows p → G q → Rests (fun _ => True) t c x (q.settle chip)) :
    Runs chip p G initializeController (Gives () fun q =>
      Rests (fun _ => True) none ((c ||| firstClock ||| secondClock) &&& 0x34 ||| 0x01)
        (x ++ (initializeScript (c ||| firstClock ||| secondClock)).map writeOf)
        (q.settle chip)) := by
  have hmask : ∀ c : Byte, (c ||| firstClock ||| secondClock) &&& firstClock ≠ 0 := by
    decide +kernel
  have hquiet : Quiet p (· = none) (c ||| firstClock ||| secondClock) := quiet_of_disabled (hmask c)
  obtain ⟨y, hy⟩ : ∃ y, x ++ [.command disableFirstPs2] ++ [.command disableSecondPs2] = y :=
    ⟨_, rfl⟩
  have htaken : x ++ (initializeScript (c ||| firstClock ||| secondClock)).map writeOf =
      y ++ [.command readControllerConfigByte] ++
        (configureScript (c ||| firstClock ||| secondClock)).map writeOf := by
    rw [← hy]
    simp only [List.append_assoc]
    rfl
  refine runs_command hprompt quiet_true.settled quiet_true.settled (fun _ h => h.input_eq)
    (fun _ h => h.disableFirst) hG ?_
  have hsecond : ∀ k, Rests (fun _ => True) none (c ||| firstClock)
      (x ++ [.command disableFirstPs2]) k → Rests (fun _ => True) none
        (c ||| firstClock ||| secondClock) y (k.exec chip (.command disableSecondPs2)) :=
    fun k h => hy ▸ h.disableSecond
  refine runs_command hprompt quiet_true.settled quiet_true.settled (fun _ h => h.input_eq) hsecond
    (settle_of_due quiet_true.settled quiet_true.settled fun _ h => h.disableFirst) ?_
  -- What is in the output buffer is thrown away.
  refine (runs_data (I := Rests (fun _ => True) none (c ||| firstClock ||| secondClock) y)
    (J := fun _ => Rests (· = none) none (c ||| firstClock ||| secondClock) y)
    (settle_of_due quiet_true.settled quiet_true.settled hsecond)
    fun s _ h => h.clear).bind_value fun _ => ?_
  refine (runs_ioWait (I := fun q => Rests (· = none) none (c ||| firstClock ||| secondClock) y
    q.state) fun q hp hq => (hquiet.settled.follows hp).settle hq).then ?_
  refine (runs_portWriteByte (Rests (· = some (c ||| firstClock ||| secondClock)) none
    (c ||| firstClock ||| secondClock) (y ++ [.command readControllerConfigByte]))
    (.inr ⟨rfl, rfl⟩) (fun q hp hq => (hquiet.settled.follows hp).settle hq)
    fun _ h => h.input_eq).then ?_
  refine Runs.bind (runs_getResponse hprompt hquiet.settled quiet_some.settled
    (fun _ h => h.readConfig) (fun _ h => h.output) (fun _ h => h.output) fun _ h => h)
    (fun a => ?_) ?_ ?_
  · by_cases ha : a = c ||| firstClock ||| secondClock
    · subst ha
      rw [htaken]
      refine runs_configure (t := none) hprompt hself htest hreset (hmask c) ?_
      rintro q ⟨-, s, hs, hq⟩
      exact hq ▸ hs.clear
    · refine runs_of_extends (extends_configure a) ?_
      rintro q ⟨h, -⟩
      exact ha (Outcome.ok.inj h)
  · exact fun e q h => nomatch h.1
  · exact fun q h => nomatch h.1

end Initialize

end Rests

/-- On a controller that works at least once in two accesses, has nothing to take and
    passes its tests, the initialisation succeeds, whenever it works and the device sends, as
    long as the self test does not let the device send. All the commands are taken. In the end
    the first interrupt is enabled and the translation is off, and both clocks are disabled:
    the first device is enabled again by the first byte that is sent to it. -/
theorem initialize_configures {values : ℕ → Byte} {screen : Vga.Screen} (hprompt : p.Prompt 2)
    (hinput : p.state.input = none) (hself : chip.selfTest = 0x55) (htest : chip.testFirst = 0x00)
    (hreset : QuietReset chip p (p.state.config &&& 0x04 ||| 0x30))
    (hreplay : replay chip p (initializeController (.start values screen)).2.log = some q) :
    (initializeController (.start values screen)).1 = .ok () ∧ (q.settle chip).input = none ∧
      (q.settle chip).taken =
        p.state.taken ++ (initializeScript (p.state.config ||| 0x30)).map writeOf ∧
      (q.settle chip).config = (p.state.config &&& 0x04) ||| 0x31 := by
  have hmask : ∀ c : Byte,
      (c ||| firstClock ||| secondClock) &&& 0x34 ||| 0x01 = (c &&& 0x04) ||| 0x31 := by
    decide +kernel
  have hmask' : ∀ c : Byte, (c ||| firstClock ||| secondClock) &&& 0x34 = c &&& 0x04 ||| 0x30 := by
    decide +kernel
  have hrest : ∀ q, q.Follows p → q = p →
      Rests (fun _ => True) p.state.target p.state.config p.state.taken (q.settle chip) := by
    rintro q - rfl
    exact quiet_true.settled.settle ⟨hinput, trivial, rfl, rfl, rfl⟩
  obtain ⟨l, hl, hq⟩ := runs_initializeController (G := fun q => q = p) hprompt hself htest
    (by rwa [hmask']) hrest (.start values screen)
  obtain rfl : (initializeController (.start values screen)).2.log = l := hl
  obtain ⟨hr, h⟩ := hq p q (.refl p) rfl hreplay
  refine ⟨hr, h.input_eq, ?_, h.config_eq.trans (hmask _)⟩
  rw [h.taken_eq, BitVec.or_assoc]
  rfl

/-- A controller that works before every access, and a device that has sent a byte. -/
def samplePort : Port where
  state := ⟨none, none, none, 0x45, 0xcd, false, [], []⟩
  slots n := ⟨if n = 0 then [.receive 0x1c, .work] else [.work], 0⟩

/-- It keeps its configuration in a self test. -/
def sampleController : I8042.Chip := ⟨0x55, 0x00, id⟩

/-- What is read from it. -/
def sampleValues : ℕ → Byte := Keyboard.portValues [0x1c, 1, 0x75, 0, 1, 0x55, 0, 1, 0, 0]

theorem prompt_samplePort : samplePort.Prompt 2 := by
  refine fun n => ⟨0, by decide, ?_⟩
  change Turn.work ∈ if n + 0 = 0 then [.receive 0x1c, .work] else [Turn.work]
  split_ifs <;> simp

theorem initialize_configures_sample : ∃ q : Port,
    (initializeController (.start sampleValues Keyboard.blankScreen)).1 = .ok () ∧
      (q.settle sampleController).config = 0x35 := by
  obtain ⟨q, hq⟩ : ∃ q, replay sampleController samplePort
      (initializeController (.start sampleValues Keyboard.blankScreen)).2.log = some q :=
    Option.isSome_iff_exists.1 (by decide +kernel)
  obtain ⟨hr, -, -, hconfig⟩ := initialize_configures prompt_samplePort rfl rfl rfl
    (fun _ _ => by decide) hq
  exact ⟨q, hr, hconfig⟩

end Replay

end PS2

end KessokuOS
