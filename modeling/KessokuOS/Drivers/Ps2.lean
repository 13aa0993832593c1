import KessokuOS.Drivers.Vga.Basic
import KessokuOS.Lib.Routine

/-!
# The PS/2 controller

The controller passes a byte to the device when its status shows that it has passed
on the last one, and an answer of the device to the driver when its status shows
that there is one. Both are tried a few times. A command is sent again as long as
the device answers that it has not understood it.

What the ports give is arbitrary (`State.values`): it is not said that an answer
belongs to the last command. A log records the accesses to the ports; `exchanges`
are the bytes sent to the device, each with the bytes read before the next one.

* `triple_sendToDevice`, `triple_getResponse`: what sending a byte, and reading one,
  adds to the exchanges;
* `triple_resendFrom`: a command that is not to be sent again is the last of at most
  as many as there are attempts;
* `triple_getFirstPortDeviceType`: what identifying the device adds.
-/

namespace KessokuOS

namespace PS2

open Routine

def dataPort : BitVec 16 := 0x60

def statusRegisterPort : BitVec 16 := 0x64

def commandRetryCount : ℕ := 3

inductive DeviceType
  | atKeyboard
  | standardMouse
  | mouseWithScrollwheel
  | fiveButtonMouse
  | mf2KeyboardTranslationEnabled
  | mf2Keyboard
  deriving DecidableEq, Repr

def deviceTypeString : DeviceType → String
  | .atKeyboard => "AT Keyboard"
  | .standardMouse => "Standard Mouse"
  | .mouseWithScrollwheel => "Mouse with Scrollwheel"
  | .fiveButtonMouse => "5 Button Mouse"
  | .mf2KeyboardTranslationEnabled => "MF2 Keyboard with Translation Enabled"
  | .mf2Keyboard => "MF2 Keyboard"

/-- An access to a port, with the value that is read or written. -/
inductive PortAccess
  | readByte (port : BitVec 16) (v : Byte)
  | writeByte (port : BitVec 16) (v : Byte)
  deriving DecidableEq, Repr

/-- The values of the next reads of a port, the screen, and the accesses so far. -/
structure State where
  values : ℕ → Byte
  screen : Vga.Screen
  log : List PortAccess

/-- Before the first access to a port. -/
def State.start (values : ℕ → Byte) (screen : Vga.Screen) : State := ⟨values, screen, []⟩

/-- A routine of the driver. -/
abbrev Driver := Routine Error State

def portReadByte (port : BitVec 16) : Driver Byte := fun s =>
  (.ok (s.values 0),
    { s with values := fun n => s.values (n + 1), log := s.log ++ [.readByte port (s.values 0)] })

def portWriteByte (port : BitVec 16) (v : Byte) : Driver Unit :=
  modify fun s => { s with log := s.log ++ [.writeByte port v] }

/-- Shows something on the screen. -/
def display (f : Vga.Screen → Vga.Screen) : Driver Unit :=
  modify fun s => { s with screen := f s.screen }

def sendToDeviceImmediate (command : Byte) : Driver Unit := do
  let status ← portReadByte statusRegisterPort
  assert (status &&& 0x02 = 0) .containerIsFull
  portWriteByte dataPort command

def sendToDevice (command : Byte) : Driver Unit :=
  retry (sendToDeviceImmediate command) commandRetryCount

def getResponseImmediate : Driver Byte := do
  let status ← portReadByte statusRegisterPort
  assert (status &&& 0x01 ≠ 0) .driverDeviceNoResponse
  portReadByte dataPort

def getResponse : Driver Byte := retry getResponseImmediate 2

/-- Sends a command, with `n` attempts left, until the response is not `resend`. -/
def resendFrom (resend command : Byte) : (n : ℕ) → Driver Byte
  | 0 => throw .retryLimitReached
  | n + 1 => do
    sendToDevice command
    let response ← getResponse
    if response ≠ resend then pure response else resendFrom resend command n

def resendUntilSuccessOrTimeout (command : Byte) : Driver Byte :=
  resendFrom 0xFE command commandRetryCount

/-- What `getFirstPortDeviceType` does with the answer to the identify command. -/
def identifyDevice : Driver DeviceType := do
  match ← attempt getResponse with
  | .error e => if e = .driverDeviceNoResponse then pure .atKeyboard else throw e
  | .ok b1 =>
    if b1 = 0x00 then pure .standardMouse
    else if b1 = 0x03 then pure .mouseWithScrollwheel
    else if b1 = 0x04 then pure .fiveButtonMouse
    else if b1 ≠ 0xAB then throw .driverDeviceUnknown
    else do
      let b2 ← getResponse
      if b2 = 0x41 then pure .mf2KeyboardTranslationEnabled
      else if b2 = 0x83 then pure .mf2Keyboard
      else throw .driverDeviceUnknown

def getFirstPortDeviceType : Driver DeviceType := do
  let _ ← resendUntilSuccessOrTimeout 0xF5
  let _ ← resendUntilSuccessOrTimeout 0xF2
  identifyDevice

/-! ## Exchanges -/

/-- A byte sent to the device, and the bytes read from it before the next one. -/
structure Exchange where
  sent : Byte
  answers : List Byte
  deriving DecidableEq, Repr

/-- One more access to a port, behind exchanges of which the last one comes first. -/
def exchange (x : List Exchange) : PortAccess → List Exchange
  | .writeByte port v => if port = dataPort then ⟨v, []⟩ :: x else x
  | .readByte port v =>
    if port = dataPort then x.modifyHead fun e => { e with answers := e.answers ++ [v] } else x

/-- What is said with the accesses `l`, the last exchange first. -/
def exchanges (l : List PortAccess) : List Exchange := l.foldl exchange []

/-- So far, the exchanges are `x`. -/
def Said (x : List Exchange) (s : State) : Prop := exchanges s.log = x

theorem exchanges_concat (l : List PortAccess) (a : PortAccess) :
    exchanges (l ++ [a]) = exchange (exchanges l) a :=
  List.foldl_concat exchange [] a l

variable {x y : List Exchange} {c resend : Byte} {n : ℕ}

theorem triple_status : Triple (Said x) (portReadByte statusRegisterPort) fun r s =>
    ∃ v, r = .ok v ∧ Said x s := by
  intro s hs
  have hne : statusRegisterPort ≠ dataPort := by decide
  refine ⟨_, rfl, ?_⟩
  change exchanges (s.log ++ [_]) = x
  rw [exchanges_concat, exchange, if_neg hne, hs]

theorem triple_portWriteByte (c : Byte) : Triple (Said x) (portWriteByte dataPort c) fun r s =>
    ∃ a, r = .ok a ∧ Said (⟨c, []⟩ :: x) s := by
  intro s hs
  refine ⟨(), rfl, ?_⟩
  change exchanges (s.log ++ [_]) = _
  rw [exchanges_concat, exchange, if_pos rfl, hs]

theorem triple_portReadByte (a : List Byte) : Triple (Said (⟨c, a⟩ :: x)) (portReadByte dataPort)
    fun r s => ∃ v, r = .ok v ∧ Said (⟨c, a ++ [v]⟩ :: x) s := by
  intro s hs
  refine ⟨_, rfl, ?_⟩
  change exchanges (s.log ++ [_]) = _
  rw [exchanges_concat, exchange, if_pos rfl, hs, List.modifyHead_cons]

/-- With a value, something has been said; with an error, nothing. -/
def Says {α : Type} (x : List Exchange) (y : α → List Exchange) (r : Outcome Error α)
    (s : State) : Prop :=
  (∀ a, r = .ok a → Said (y a) s) ∧ ∀ e, r = .error e → Said x s

theorem triple_sendToDevice (c : Byte) :
    Triple (Said x) (sendToDevice c) (Says x fun _ => ⟨c, []⟩ :: x) := by
  refine Triple.retry ?_ (fun e s h => h.2 e rfl) _
  refine triple_status.bind_ok fun status s hs => ?_
  by_cases h : status &&& 0x02 = 0
  · rw [bind_assert_of_true (decide_eq_true h)]
    obtain ⟨a, ha, hs⟩ := triple_portWriteByte c s hs
    exact ⟨fun _ _ => hs, fun e he => nomatch ha ▸ he⟩
  · rw [bind_assert_of_false (decide_eq_false h)]
    exact ⟨nofun, fun _ _ => hs⟩

theorem triple_getResponse (a : List Byte) : Triple (Said (⟨c, a⟩ :: x)) getResponse
    (Says (⟨c, a⟩ :: x) fun v => ⟨c, a ++ [v]⟩ :: x) := by
  refine Triple.retry ?_ (fun e s h => h.2 e rfl) _
  refine triple_status.bind_ok fun status s hs => ?_
  by_cases h : status &&& 0x01 ≠ 0
  · rw [bind_assert_of_true (decide_eq_true h)]
    obtain ⟨v, hv, hs⟩ := triple_portReadByte a s hs
    exact ⟨fun v' hv' => by cases hv.symm.trans hv'; exact hs, fun e he => nomatch hv ▸ he⟩
  · rw [bind_assert_of_false (decide_eq_false h)]
    exact ⟨nofun, fun _ _ => hs⟩

/-! ## Commands -/

/-- Behind `x`, the command `c` has been sent at most `n` times, the last time with the
    answers `a`; before that, the device has asked to have it sent again. -/
def Resent (resend c : Byte) (n : ℕ) (a : List Byte) (x y : List Exchange) : Prop :=
  ∃ k < n, y = ⟨c, a⟩ :: (List.replicate k ⟨c, [resend]⟩ ++ x)

/-- What has been said is `x` and, sent at most `n` times, the command `c`. -/
def Heard (resend c : Byte) (n : ℕ) (a : List Byte) (x : List Exchange) (s : State) : Prop :=
  ∃ y, Resent resend c n a x y ∧ Said y s

theorem triple_resendFrom (resend c : Byte) (n : ℕ) : Triple (Said x) (resendFrom resend c n)
    fun r s => ∀ v, r = .ok v → v ≠ resend ∧ Heard resend c n [v] x s := by
  induction n generalizing x with
  | zero => exact fun s _ => nofun
  | succ n ih =>
    have hsend : Triple (Said x) (sendToDevice c) fun r s => ∀ a, r = .ok a →
        Said (⟨c, []⟩ :: x) s := (triple_sendToDevice c).mono fun r s h => h.1
    have hresponse : Triple (Said (⟨c, []⟩ :: x)) getResponse fun r s => ∀ v, r = .ok v →
        Said (⟨c, [v]⟩ :: x) s := (triple_getResponse []).mono fun r s h => h.1
    refine hsend.bind_value fun _ => hresponse.bind_value fun v => ?_
    intro s hs
    by_cases hv : v ≠ resend
    · rw [if_pos hv]
      intro v' hv'
      cases hv'
      exact ⟨hv, _, ⟨0, Nat.succ_pos n, rfl⟩, hs⟩
    · rw [if_neg hv]
      rw [not_not.1 hv] at hs
      intro v' hv'
      obtain ⟨hne, y, ⟨k, hk, hy⟩, hs'⟩ := ih s hs v' hv'
      refine ⟨hne, y, ⟨k + 1, Nat.succ_lt_succ hk, ?_⟩, hs'⟩
      rw [hy, List.replicate_succ', List.append_assoc]
      rfl

section Heard

variable {a : List Byte}

/-- Another byte is one more answer to the last command. -/
theorem triple_getResponse_heard : Triple (Heard resend c n a x) getResponse fun r s =>
    (∀ v, r = .ok v → Heard resend c n (a ++ [v]) x s) ∧
      ∀ e, r = .error e → Heard resend c n a x s := by
  rintro s ⟨_, ⟨k, hk, rfl⟩, hs⟩
  obtain ⟨hok, herror⟩ := triple_getResponse a s hs
  exact ⟨fun v hv => ⟨_, ⟨k, hk, rfl⟩, hok v hv⟩, fun e he => ⟨_, ⟨k, hk, rfl⟩, herror e he⟩⟩

theorem triple_identifyDevice : Triple (Heard resend c n a x) identifyDevice fun r s =>
    ∀ t, r = .ok t → ∃ a, Heard resend c n a x s := by
  have hfirst : Triple (Heard resend c n a x) (attempt getResponse) fun r s =>
      ∀ b, r = .ok b → ∃ a, Heard resend c n a x s :=
    triple_getResponse_heard.attempt (fun v s hs => ⟨_, hs.1 v rfl⟩) fun e s hs => ⟨a, hs.2 e rfl⟩
  have hsecond : ∀ a, Triple (Heard resend c n a x) getResponse fun r s =>
      ∀ v, r = .ok v → ∃ a, Heard resend c n a x s :=
    fun a => triple_getResponse_heard.mono fun r s h v hv => ⟨_, h.1 v hv⟩
  refine hfirst.bind_value fun b => ?_
  cases b with
  | error e =>
    dsimp only
    split_ifs
    · exact fun s hs _ _ => hs
    · exact fun s _ => nofun
  | ok b1 =>
    dsimp only
    split_ifs
    · exact fun s hs _ _ => hs
    · exact fun s hs _ _ => hs
    · exact fun s hs _ _ => hs
    · exact fun s _ => nofun
    · refine .of_exists fun a => (hsecond a).bind_value fun b2 => ?_
      split_ifs
      · exact fun s hs _ _ => hs
      · exact fun s hs _ _ => hs
      · exact fun s _ => nofun

end Heard

/-- Identifying the device is to disable its scanning, and to ask it. -/
theorem triple_getFirstPortDeviceType : Triple (Said x) getFirstPortDeviceType fun r s =>
    ∀ t, r = .ok t → ∃ a₁ y a₂, Resent 0xFE 0xF5 commandRetryCount a₁ x y ∧
      Heard 0xFE 0xF2 commandRetryCount a₂ y s := by
  refine (triple_resendFrom 0xFE 0xF5 _).bind_value fun v₁ => ?_
  refine .of_and fun _ => .of_exists fun y => .of_and fun hy => ?_
  refine (triple_resendFrom 0xFE 0xF2 _).bind_value fun v₂ => ?_
  refine .of_and fun _ => triple_identifyDevice.mono fun r s h t ht => ?_
  obtain ⟨a, ha⟩ := h t ht
  exact ⟨_, y, a, hy, ha⟩

/-! ## What a command sent again adds -/

section Resent

variable {a : List Byte}

theorem Resent.forall_mem_iff {P : Exchange → Prop} (h : Resent resend c n a x y)
    (hP : P ⟨c, [resend]⟩) : (∀ e ∈ y, P e) ↔ P ⟨c, a⟩ ∧ ∀ e ∈ x, P e := by
  obtain ⟨k, -, rfl⟩ := h
  rw [List.forall_mem_cons, List.forall_mem_append]
  refine and_congr_right fun _ => and_iff_right fun e he => ?_
  rwa [List.eq_of_mem_replicate he]

/-- The last exchange with the command is the one that ended it. -/
theorem Resent.find?_self (h : Resent resend c n a x y) :
    y.find? (fun e => e.sent = c) = some ⟨c, a⟩ := by
  obtain ⟨k, -, rfl⟩ := h
  exact List.find?_cons_of_pos (decide_eq_true rfl)

/-- The exchanges with other commands are as before. -/
theorem Resent.find?_of_ne (h : Resent resend c n a x y) {d : Byte} (hd : c ≠ d) :
    y.find? (fun e => e.sent = d) = x.find? (fun e => e.sent = d) := by
  obtain ⟨k, -, rfl⟩ := h
  simp [List.find?_append, hd]

/-- No command is sent more than `n` times, if none that has been sent already is sent
    again. -/
theorem Resent.countP_le (h : Resent resend c n a x y) (hc : ∀ e ∈ x, e.sent ≠ c)
    (hx : ∀ d, x.countP (fun e => e.sent = d) ≤ n) (d : Byte) :
    y.countP (fun e => e.sent = d) ≤ n := by
  obtain ⟨k, hk, rfl⟩ := h
  by_cases hd : c = d
  · subst hd
    have h₀ : x.countP (fun e => e.sent = c) = 0 := by simpa using hc
    simpa [List.countP_replicate, h₀] using Nat.succ_le_of_lt hk
  · simpa [List.countP_replicate, hd] using hx d

end Resent

end PS2

end KessokuOS
