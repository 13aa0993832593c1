import KessokuOS.Lib.Memory

/-!
# A keyboard controller

The controller stands between a host and a device (type 8042). What the host writes,
commands and data, goes to an input buffer, from which the controller takes it when it
gets to it; the answers, and the bytes of the device, go to an output buffer. A status
tells the host whether they are full. What is written to a full input buffer replaces
what has not been taken, and an answer what has not been read. Bit `0` of the output port
is the reset line of the host, which is restarted by a byte that has it clear.

The controller works between the accesses of the host, and the device sends bytes
(`Turn`): a `Slot` is what happens before an access. What holds for all slots holds for
every timing of the three.

* `State.Pending.elapse`: what is written is taken at some time, between bytes of the
  device;
* `Port.Later.taken`: hence a host that has waited for an empty input buffer knows that it
  has been.

The wait comes to an end if the controller works at least once in so many accesses
(`Port.Prompt`, `State.input_elapse_of_work`). If it does in any two, a host need not
wait that lets one access pass (`Port.due_next`, `Port.Due.settle`).
-/

namespace KessokuOS

namespace I8042

/-- The commands that are known here; others are ignored. -/
inductive Command
  | readConfig
  | writeConfig
  | disableSecond
  | enableSecond
  | selfTest
  | testFirst
  | disableFirst
  | enableFirst
  | readOutputPort
  | writeOutputPort
  deriving DecidableEq, Repr

namespace Command

def byte : Command → Byte
  | readConfig => 0x20
  | writeConfig => 0x60
  | disableSecond => 0xA7
  | enableSecond => 0xA8
  | selfTest => 0xAA
  | testFirst => 0xAB
  | disableFirst => 0xAD
  | enableFirst => 0xAE
  | readOutputPort => 0xD0
  | writeOutputPort => 0xD1

def all : List Command :=
  [readConfig, writeConfig, disableSecond, enableSecond, selfTest, testFirst, disableFirst,
    enableFirst, readOutputPort, writeOutputPort]

def ofByte? (b : Byte) : Option Command := all.find? (·.byte = b)

@[simp] theorem ofByte?_byte (c : Command) : ofByte? c.byte = some c := by
  cases c <;> decide

end Command

/-- What the host writes. -/
inductive Write
  | command (b : Byte)
  | data (v : Byte)
  deriving DecidableEq, Repr

/-- A register that is written through data behind a command. -/
inductive Target
  | config
  | outputPort
  deriving DecidableEq, Repr

/-- The answers to the tests, and the configuration behind the self test. -/
structure Chip where
  selfTest : Byte
  testFirst : Byte
  reset : Byte → Byte

/-- The bits of the configuration that disable the clocks of the two devices. -/
abbrev firstClock : Byte := 0x10

abbrev secondClock : Byte := 0x20

structure State where
  /-- What is written and not taken yet. -/
  input : Option Write
  /-- What can be read. -/
  output : Option Byte
  /-- Where the next data go, if not to the device. -/
  target : Option Target
  config : Byte
  outputPort : Byte
  /-- Whether the machine has been restarted: the line is low where bit `0` of the output
      port is clear. -/
  restarted : Bool
  /-- The data passed on to the device. -/
  sent : List Byte
  /-- What has been taken so far. -/
  taken : List Write
  deriving DecidableEq, Repr

/-- What happens between accesses: the controller works, or the device sends a byte. -/
inductive Turn
  | work
  | receive (b : Byte)
  deriving DecidableEq, Repr

/-- What happens before an access, and what the access reads where nothing is
    determined. -/
structure Slot where
  turns : List Turn
  noise : Byte

namespace State

variable (chip : Chip) (s : State)

/-- Executes a command; behind another one, no data are waited for. -/
def execCommand (s : State) : Command → State
  | .readConfig => { s with target := none, output := some s.config }
  | .writeConfig => { s with target := some .config }
  | .disableSecond => { s with target := none, config := s.config ||| secondClock }
  | .enableSecond => { s with target := none, config := s.config &&& ~~~secondClock }
  | .selfTest =>
    { s with target := none, output := some chip.selfTest, config := chip.reset s.config }
  | .testFirst => { s with target := none, output := some chip.testFirst }
  | .disableFirst => { s with target := none, config := s.config ||| firstClock }
  | .enableFirst => { s with target := none, config := s.config &&& ~~~firstClock }
  | .readOutputPort => { s with target := none, output := some s.outputPort }
  | .writeOutputPort => { s with target := some .outputPort }

/-- Takes data. A byte for the device enables its clock. -/
def execData (v : Byte) : State :=
  match s.target with
  | some .config => { s with target := none, config := v }
  | some .outputPort =>
    { s with target := none, outputPort := v, restarted := s.restarted || !v.getLsbD 0 }
  | none => { s with config := s.config &&& ~~~firstClock, sent := s.sent ++ [v] }

/-- Records that something is taken. -/
def record (w : Write) : State := { s with taken := s.taken ++ [w] }

def exec (s : State) : Write → State
  | .command b =>
    ((Command.ofByte? b).map ((s.record (.command b)).execCommand chip)).getD
      { s.record (.command b) with target := none }
  | .data v => (s.record (.data v)).execData v

/-- Takes what is in the input buffer. -/
def work : State :=
  match s.input with
  | some w => exec chip { s with input := none } w
  | none => s

/-- A byte of the device, which it keeps while its clock is disabled or the last one
    has not been read. -/
def receive (b : Byte) : State :=
  if s.output = none ∧ s.config &&& firstClock = 0 then { s with output := some b } else s

def turn (s : State) : Turn → State
  | .work => s.work chip
  | .receive b => s.receive b

def elapse (ts : List Turn) : State := ts.foldl (turn chip) s

/-- The status: bits `0` and `1` tell of the two buffers. -/
def status (noise : Byte) : Byte :=
  (noise &&& 0xFC) ||| (if s.output.isSome then 1 else 0) ||| (if s.input.isSome then 2 else 0)

def write (w : Write) : State := { s with input := some w }

/-- The status for the bits of the two buffers. -/
theorem status_bits (o i : Bool) (noise : Byte) :
    (((noise &&& 0xFC) ||| (if o then 1 else 0) ||| (if i then 2 else 0)) &&& 1 = 0 ↔ o = false) ∧
      (((noise &&& 0xFC) ||| (if o then 1 else 0) ||| (if i then 2 else 0)) &&& 2 = 0 ↔
        i = false) := by
  revert o i noise
  decide +kernel

theorem status_output (noise : Byte) : s.status noise &&& 1 = 0 ↔ s.output = none := by
  rw [status, (status_bits _ _ noise).1, Option.isSome_eq_false_iff, Option.isNone_iff_eq_none]

theorem status_input (noise : Byte) : s.status noise &&& 2 = 0 ↔ s.input = none := by
  rw [status, (status_bits _ _ noise).2, Option.isSome_eq_false_iff, Option.isNone_iff_eq_none]

theorem toNat_status_output (noise : Byte) :
    (s.status noise).toNat &&& 1 = 0 ↔ s.output = none := by
  rw [← status_output s noise, ← BitVec.toNat_inj, BitVec.toNat_and]
  rfl

theorem toNat_status_input (noise : Byte) :
    (s.status noise).toNat &&& 2 = 0 ↔ s.input = none := by
  rw [← status_input s noise, ← BitVec.toNat_inj, BitVec.toNat_and]
  rfl

@[simp] theorem target_record (w : Write) : (s.record w).target = s.target := rfl

@[simp] theorem outputPort_record (w : Write) : (s.record w).outputPort = s.outputPort := rfl

theorem exec_command (c : Command) : s.exec chip (.command c.byte) =
    (s.record (.command c.byte)).execCommand chip c := by
  rw [exec, Command.ofByte?_byte]
  rfl

variable {chip s}

/-- What is kept by every turn is kept by all of them. -/
theorem elapse_induction {I : State → Prop} {ts : List Turn} (hs : I s)
    (hwork : ∀ s, I s → I (s.work chip))
    (hreceive : ∀ b, Turn.receive b ∈ ts → ∀ s, I s → I (s.receive b)) :
    I (s.elapse chip ts) := by
  induction ts generalizing s with
  | nil => exact hs
  | cons t ts ih =>
    have hreceive' : ∀ b, Turn.receive b ∈ ts → ∀ s, I s → I (s.receive b) :=
      fun b hb => hreceive b (List.mem_cons_of_mem _ hb)
    cases t with
    | work => exact ih (hwork s hs) hreceive'
    | receive b => exact ih (hreceive b List.mem_cons_self s hs) hreceive'

theorem work_of_input_eq_none (h : s.input = none) : s.work chip = s := by
  rw [work, h]

theorem work_of_input_eq_some {w : Write} (h : s.input = some w) :
    s.work chip = exec chip { s with input := none } w := by
  rw [work, h]

@[simp] theorem input_receive (b : Byte) : (s.receive b).input = s.input := by
  rw [receive]
  split_ifs <;> rfl

theorem input_execCommand (c : Command) : (s.execCommand chip c).input = s.input := by
  cases c <;> rfl

theorem input_exec (w : Write) : (s.exec chip w).input = s.input := by
  cases w with
  | command b =>
    rw [exec]
    cases Command.ofByte? b with
    | none => rfl
    | some c => exact input_execCommand c
  | data v =>
    rw [exec, execData]
    split <;> rfl

theorem input_work : (s.work chip).input = none := by
  cases h : s.input with
  | none => rw [work_of_input_eq_none h, h]
  | some w => rw [work_of_input_eq_some h, input_exec]

theorem input_elapse_of_none (h : s.input = none) (ts : List Turn) :
    (s.elapse chip ts).input = none :=
  elapse_induction (I := fun s => s.input = none) h (fun _ _ => input_work)
    fun b _ _ hs => (input_receive b).trans hs

/-- A controller that has worked has taken what was written. -/
theorem input_elapse_of_work {ts : List Turn} (h : Turn.work ∈ ts) :
    (s.elapse chip ts).input = none := by
  induction ts generalizing s with
  | nil => exact absurd h List.not_mem_nil
  | cons t ts ih =>
    rcases List.mem_cons.1 h with rfl | h
    · exact input_elapse_of_none input_work ts
    · exact ih h

theorem output_execCommand_ne_none (h : s.output ≠ none) (c : Command) :
    (s.execCommand chip c).output ≠ none := by
  cases c <;> first | exact h | exact Option.some_ne_none _

theorem output_exec_ne_none (h : s.output ≠ none) (w : Write) : (s.exec chip w).output ≠ none := by
  cases w with
  | command b =>
    rw [exec]
    cases Command.ofByte? b with
    | none => exact h
    | some c => exact output_execCommand_ne_none (s := s.record (.command b)) h c
  | data v =>
    rw [exec, execData]
    split <;> exact h

/-- What can be read stays, or is replaced, until it is read. -/
theorem output_elapse_ne_none (h : s.output ≠ none) (ts : List Turn) :
    (s.elapse chip ts).output ≠ none := by
  refine elapse_induction (I := fun s => s.output ≠ none) h (fun s hs => ?_) fun b _ s hs => ?_
  · cases hw : s.input with
    | none => rwa [work_of_input_eq_none hw]
    | some w =>
      rw [work_of_input_eq_some hw]
      exact output_exec_ne_none (s := { s with input := none }) hs w
  · rwa [State.receive, if_neg fun h => hs h.1]

/-! ## Taking what is written -/

/-- A condition on a controller with an empty input buffer which the bytes of the device
    among `ts` do not end. -/
structure Settled (ts : List Turn) (I : State → Prop) : Prop where
  input_eq : ∀ s, I s → s.input = none
  receive : ∀ b, Turn.receive b ∈ ts → ∀ s, I s → I (s.receive b)

theorem Settled.elapse {I : State → Prop} {ts : List Turn} (hI : Settled ts I) (hs : I s) :
    I (s.elapse chip ts) := by
  refine elapse_induction hs (fun s hs => ?_) hI.receive
  rwa [work_of_input_eq_none (hI.input_eq s hs)]

/-- What is written, with `I` before, has not been taken yet, or `J` holds. -/
def Pending (w : Write) (I J : State → Prop) (s : State) : Prop :=
  s.input = some w ∧ I { s with input := none } ∨ J s

/-- If taking it makes `J` hold, it is taken at some time. -/
theorem Pending.elapse {w : Write} {I J : State → Prop} {ts : List Turn} (hI : Settled ts I)
    (hJ : Settled ts J) (hexec : ∀ s, I s → J (s.exec chip w)) (hs : Pending w I J s) :
    Pending w I J (s.elapse chip ts) := by
  refine elapse_induction hs ?_ ?_
  · rintro s (⟨hw, hs⟩ | hs)
    · rw [work_of_input_eq_some hw]
      exact .inr (hexec _ hs)
    · rw [work_of_input_eq_none (hJ.input_eq s hs)]
      exact .inr hs
  · rintro b hb s (⟨hw, hs⟩ | hs)
    · refine .inl ⟨(input_receive b).trans hw, ?_⟩
      have := hI.receive b hb _ hs
      rw [State.receive] at this ⊢
      split_ifs with h
      · rwa [if_pos h] at this
      · rwa [if_neg h] at this
    · exact .inr (hJ.receive b hb s hs)

/-- Behind an empty input buffer, what was written has been taken. -/
theorem Pending.taken {w : Write} {I J : State → Prop} (hs : Pending w I J s)
    (h : s.input = none) : J s := by
  rcases hs with ⟨hw, -⟩ | hs
  · exact absurd (h.symm.trans hw) (Option.some_ne_none w).symm
  · exact hs

theorem pending_write {w : Write} {I J : State → Prop} (hs : I s) (h : s.input = none) :
    Pending w I J (s.write w) := by
  refine .inl ⟨rfl, ?_⟩
  rwa [write, ← h]

end State

/-! ## The ports -/

/-- A controller with the slots of the accesses to come. -/
structure Port where
  state : State
  slots : ℕ → Slot

namespace Port

variable (chip : Chip) (p : Port)

/-- The controller at the next access. -/
def settle : State := p.state.elapse chip (p.slots 0).turns

/-- Behind the next access, which leaves the controller in the state `s`. -/
def next (s : State) : Port := ⟨s, fun n => p.slots (n + 1)⟩

def readStatus : Byte × Port :=
  let s := p.settle chip
  (s.status (p.slots 0).noise, p.next s)

def readData : Byte × Port :=
  let s := p.settle chip
  (s.output.getD (p.slots 0).noise, p.next { s with output := none })

def write (w : Write) : Port := p.next ((p.settle chip).write w)

end Port

/-- A turn is going to happen. -/
def Port.Happens (p : Port) (t : Turn) : Prop := ∃ i, t ∈ (p.slots i).turns

/-- The slots of `q` are those of `p` behind some accesses. -/
def Port.Follows (q p : Port) : Prop := ∃ n, ∀ i, q.slots i = p.slots (n + i)

/-- The controller works at least once in any `d` accesses. -/
def Port.Prompt (d : ℕ) (p : Port) : Prop := ∀ n, ∃ m < d, Turn.work ∈ (p.slots (n + m)).turns

namespace Port

variable {chip : Chip} {p q r : Port} {d : ℕ}

namespace Follows

theorem refl (p : Port) : p.Follows p := ⟨0, fun i => by rw [Nat.zero_add]⟩

theorem trans (h : r.Follows q) (h' : q.Follows p) : r.Follows p := by
  obtain ⟨n, hn⟩ := h
  obtain ⟨n', hn'⟩ := h'
  exact ⟨n' + n, fun i => by rw [hn, hn', Nat.add_assoc]⟩

theorem next (p : Port) (s : State) : (p.next s).Follows p :=
  ⟨1, fun i => by rw [Nat.add_comm]; rfl⟩

theorem happens (h : q.Follows p) {t : Turn} (ht : q.Happens t) : p.Happens t := by
  obtain ⟨n, hn⟩ := h
  obtain ⟨i, hi⟩ := ht
  exact ⟨n + i, by rwa [← hn]⟩

theorem prompt (h : q.Follows p) (hp : p.Prompt d) : q.Prompt d := by
  obtain ⟨n, hn⟩ := h
  intro i
  obtain ⟨m, hm, hw⟩ := hp (n + i)
  exact ⟨m, hm, by rwa [hn, ← Nat.add_assoc]⟩

end Follows

/-- From `p` to `q`, the host has only read the status. -/
structure Later (chip : Chip) (p q : Port) : Prop where
  follows : q.Follows p
  state_eq : ∃ ts, (∀ t ∈ ts, p.Happens t) ∧ q.state = p.state.elapse chip ts

namespace Later

theorem refl (p : Port) : p.Later chip p :=
  ⟨.refl p, [], fun _ ht => absurd ht List.not_mem_nil, rfl⟩

theorem trans (h : p.Later chip q) (h' : q.Later chip r) : p.Later chip r := by
  obtain ⟨hf, ts, hts, hs⟩ := h
  obtain ⟨hf', ts', hts', hs'⟩ := h'
  refine ⟨hf'.trans hf, ts ++ ts', fun t ht => ?_, ?_⟩
  · exact (List.mem_append.1 ht).elim (hts t) fun ht => hf.happens (hts' t ht)
  · rw [hs', hs, State.elapse, State.elapse, State.elapse, List.foldl_append]

theorem next (chip : Chip) (p : Port) : p.Later chip (p.next (p.settle chip)) :=
  ⟨.next p _, _, fun _ ht => ⟨0, ht⟩, rfl⟩

end Later

/-- A condition on the controller that no byte of the device to come ends. -/
def Settled (p : Port) (I : State → Prop) : Prop :=
  ∀ ts, (∀ t ∈ ts, p.Happens t) → State.Settled ts I

theorem Settled.follows {I : State → Prop} (h : p.Settled I) (hq : q.Follows p) : q.Settled I :=
  fun ts hts => h ts fun t ht => hq.happens (hts t ht)

theorem Settled.settle {I : State → Prop} (h : p.Settled I) (hp : I p.state) :
    I (p.settle chip) :=
  (h _ fun _ ht => ⟨0, ht⟩).elapse hp

/-- What has been written has been taken when the input buffer is empty. -/
theorem Later.taken {w : Write} {I J : State → Prop} (h : p.Later chip q) (hI : p.Settled I)
    (hJ : p.Settled J) (hexec : ∀ s, I s → J (s.exec chip w)) (hp : State.Pending w I J p.state)
    (hq : q.state.input = none) : J q.state := by
  obtain ⟨-, ts, hts, hs⟩ := h
  have := hp.elapse (hI ts hts) (hJ ts hts) hexec
  rw [← hs] at this
  exact this.taken hq

/-- What is written has been taken, or is going to be before the next access. -/
def Due (w : Write) (I J : State → Prop) (p : Port) : Prop :=
  J p.state ∨ (p.state.input = some w ∧ I { p.state with input := none }) ∧
    Turn.work ∈ (p.slots 0).turns

section Due

variable {w : Write} {I J : State → Prop}

/-- If the controller works at least once in two accesses, that is so one access behind. -/
theorem due_next (hp : p.Prompt 2) (hI : p.Settled I) (hJ : p.Settled J)
    (hexec : ∀ s, I s → J (s.exec chip w)) (h : State.Pending w I J p.state) :
    Due w I J (p.next (p.settle chip)) := by
  have hslot : ∀ t ∈ (p.slots 0).turns, p.Happens t := fun t ht => ⟨0, ht⟩
  rcases h.elapse (hI _ hslot) (hJ _ hslot) hexec with ⟨hw, hs⟩ | hs
  · -- It has not worked yet.
    have hne : Turn.work ∉ (p.slots 0).turns := fun hwork =>
      Option.some_ne_none w (hw.symm.trans (State.input_elapse_of_work hwork))
    obtain ⟨m, hm, hwork⟩ := hp 0
    rw [Nat.zero_add] at hwork
    obtain rfl : m = 1 := by
      refine (Nat.le_one_iff_eq_zero_or_eq_one.1 (Nat.le_of_lt_succ hm)).resolve_left fun h => ?_
      exact hne (h ▸ hwork)
    exact .inr ⟨⟨hw, hs⟩, hwork⟩
  · exact .inl hs

theorem Due.settle (hI : p.Settled I) (hJ : p.Settled J) (hexec : ∀ s, I s → J (s.exec chip w))
    (h : Due w I J p) : J (p.settle chip) := by
  have hslot : ∀ t ∈ (p.slots 0).turns, p.Happens t := fun t ht => ⟨0, ht⟩
  rcases h with hs | ⟨hs, hwork⟩
  · exact (hJ _ hslot).elapse hs
  · have hpending : State.Pending w I J p.state := .inl hs
    exact (hpending.elapse (hI _ hslot) (hJ _ hslot) hexec).taken
      (State.input_elapse_of_work hwork)

end Due

end Port

end I8042

end KessokuOS
