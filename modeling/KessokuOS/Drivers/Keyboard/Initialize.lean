import KessokuOS.Drivers.Keyboard.Basic
import KessokuOS.Drivers.Ps2

/-!
# The initialisation of the keyboard

The keyboard is reset, tells that it has tested itself, and is told to send its scan
codes. It acknowledges both commands (`responseAck`), or asks to have them sent again.

`initializeKeyboard` sends a command again when it is asked to, but takes any other
answer for a success: that a command has been acknowledged is not checked. Only the
result of the self test is.

* `triple_initializeKeyboard`: what a successful initialisation has sent, and what has
  been answered;
* `acknowledged_iff`: whatever the ports give, the commands of a successful
  initialisation are acknowledged exactly if they are answered as they should be.
-/

namespace KessokuOS

namespace Keyboard

open PS2 Routine

def commandEnableScanning : Byte := 0xF4

def commandResetAndSelfTest : Byte := 0xFF

def responseAck : Byte := 0xFA

def responseResend : Byte := 0xFE

/-- The bytes of a text. -/
def text (t : String) : List Byte := t.toList.map fun c => BitVec.ofNat 8 c.toNat

def isKeyboard (type : DeviceType) : Bool :=
  type = .atKeyboard || type = .mf2KeyboardTranslationEnabled || type = .mf2Keyboard

def resendUntilSuccessOrTimeout (command : Byte) : PS2.Driver Byte :=
  resendFrom responseResend command sendCommandRetryLimit

/-- `Keyboard::initialize`. -/
def initializeKeyboard : PS2.Driver Unit := do
  let type ← getFirstPortDeviceType
  when (!isKeyboard type) do
    display fun screen => screen.putChar 0x27
    display (Vga.Screen.putString (text (deviceTypeString type)))
    display (Vga.Screen.putString (text "' is not a keyboard\n"))
    throw .driverInvalidDevice
  let _ ← Keyboard.resendUntilSuccessOrTimeout commandResetAndSelfTest
  let selfTestResult ← getResponse
  assert (selfTestResult = 0xAA) .driverDeviceCheckFailed
  let _ ← Keyboard.resendUntilSuccessOrTimeout commandEnableScanning
  pure ()

/-! ## What is said -/

/-- The last exchange with a command. -/
def lastExchange (c : Byte) (l : List PortAccess) : Option Exchange :=
  (exchanges l).find? fun e => e.sent = c

/-- The commands have been acknowledged in the end, the test has succeeded, and no byte
    has been sent too often. -/
structure Acknowledged (l : List PortAccess) : Prop where
  reset : lastExchange commandResetAndSelfTest l =
    some ⟨commandResetAndSelfTest, [responseAck, 0xAA]⟩
  enable : lastExchange commandEnableScanning l = some ⟨commandEnableScanning, [responseAck]⟩
  sent_le : ∀ c, (exchanges l).countP (fun e => e.sent = c) ≤ sendCommandRetryLimit

/-- A command to the keyboard is acknowledged, or to be sent again. -/
def AnswersProperly (e : Exchange) : Prop :=
  e.sent = commandResetAndSelfTest ∨ e.sent = commandEnableScanning →
    e.answers.head? = some responseAck ∨ e.answers.head? = some responseResend

/-- The keyboard never gives another answer to a command. -/
def Answered (l : List PortAccess) : Prop := ∀ e ∈ exchanges l, AnswersProperly e

/-- What a successful initialisation says: its four commands, of which the last two are
    answered by `a` and `b`. -/
def Initialized (a b : Byte) (z : List Exchange) : Prop :=
  ∃ a₁ a₂ w x y, Resent 0xFE 0xF5 commandRetryCount a₁ [] w ∧
    Resent 0xFE 0xF2 commandRetryCount a₂ w x ∧
    Resent responseResend commandResetAndSelfTest sendCommandRetryLimit [a, 0xAA] x y ∧
    Resent responseResend commandEnableScanning sendCommandRetryLimit [b] y z

variable {x : List Exchange}

theorem triple_initializeKeyboard : Triple (Said []) initializeKeyboard fun r s =>
    ∀ u, r = .ok u → ∃ a b z, a ≠ responseResend ∧ b ≠ responseResend ∧ Initialized a b z ∧
      Said z s := by
  refine triple_getFirstPortDeviceType.bind_value fun type => ?_
  refine .of_exists fun a₁ => .of_exists fun w => .of_exists fun a₂ => .of_and fun hw => ?_
  refine Triple.bind_value (M := fun _ => Heard 0xFE 0xF2 commandRetryCount a₂ w) ?_ fun _ => ?_
  · cases isKeyboard type
    · exact fun s _ => nofun
    · exact fun s hs _ _ => hs
  refine .of_exists fun x => .of_and fun hx => ?_
  refine (triple_resendFrom responseResend commandResetAndSelfTest _).bind_value fun a => ?_
  refine .of_and fun ha => (triple_getResponse_heard.mono fun r s h => h.1).bind_value fun v => ?_
  refine (Triple.assert _ _).bind_value fun _ => .of_and fun hv => ?_
  obtain rfl : v = 0xAA := of_decide_eq_true hv
  refine .of_exists fun y => .of_and fun hy => ?_
  refine (triple_resendFrom responseResend commandEnableScanning _).bind_value fun b => ?_
  refine .of_and fun hb => .of_exists fun z => .of_and fun hz => ?_
  exact fun s hs _ _ => ⟨a, b, z, ha, hb, ⟨a₁, a₂, w, x, y, hw, hx, hy, hz⟩, hs⟩

/-! ## Acknowledgements -/

section Initialized

variable {a b : Byte} {z : List Exchange}

theorem Initialized.find?_enable (h : Initialized a b z) :
    z.find? (fun e => e.sent = commandEnableScanning) = some ⟨commandEnableScanning, [b]⟩ := by
  obtain ⟨a₁, a₂, w, x, y, hw, hx, hy, hz⟩ := h
  exact hz.find?_self

theorem Initialized.find?_reset (h : Initialized a b z) :
    z.find? (fun e => e.sent = commandResetAndSelfTest) =
      some ⟨commandResetAndSelfTest, [a, 0xAA]⟩ := by
  obtain ⟨a₁, a₂, w, x, y, hw, hx, hy, hz⟩ := h
  rw [hz.find?_of_ne (by decide)]
  exact hy.find?_self

/-- The four commands are different ones. -/
theorem Initialized.countP_le (h : Initialized a b z) (c : Byte) :
    z.countP (fun e => e.sent = c) ≤ sendCommandRetryLimit := by
  obtain ⟨a₁, a₂, w, x, y, hw, hx, hy, hz⟩ := h
  have hne : ∀ {c d a x y}, Resent 0xFE d sendCommandRetryLimit a x y → d ≠ c →
      (∀ e ∈ x, e.sent ≠ c) → ∀ e ∈ y, e.sent ≠ c :=
    fun hy hd hx => (hy.forall_mem_iff hd).2 ⟨hd, hx⟩
  have hnil : ∀ c : Byte, ∀ e ∈ ([] : List Exchange), e.sent ≠ c := fun _ _ => nofun
  have hw' := hw.countP_le (hnil _) fun _ => Nat.zero_le _
  have hx' := hx.countP_le (hne hw (by decide) (hnil _)) hw'
  have hy' := hy.countP_le (hne hx (by decide) (hne hw (by decide) (hnil _))) hx'
  refine hz.countP_le (hne hy (by decide) ?_) hy' c
  exact hne hx (by decide) (hne hw (by decide) (hnil _))

/-- Only the answers `a` and `b` may not be as they should be. -/
theorem Initialized.answersProperly_iff (h : Initialized a b z) (ha : a ≠ responseResend)
    (hb : b ≠ responseResend) :
    (∀ e ∈ z, AnswersProperly e) ↔ a = responseAck ∧ b = responseAck := by
  obtain ⟨a₁, a₂, w, x, y, hw, hx, hy, hz⟩ := h
  have hother : ∀ d as, d ≠ commandResetAndSelfTest → d ≠ commandEnableScanning →
      AnswersProperly ⟨d, as⟩ := fun d as h₁ h₂ h => absurd h (not_or.2 ⟨h₁, h₂⟩)
  have hresend : ∀ d as, AnswersProperly ⟨d, responseResend :: as⟩ := fun d as _ => .inr rfl
  have hlast : ∀ d v as, d = commandResetAndSelfTest ∨ d = commandEnableScanning →
      v ≠ responseResend → (AnswersProperly ⟨d, v :: as⟩ ↔ v = responseAck) := by
    intro d v as hd hv
    constructor
    · intro h
      exact Option.some_inj.1 ((h hd).resolve_right fun h => hv (Option.some_inj.1 h))
    · rintro rfl
      exact fun _ => .inl rfl
  rw [hz.forall_mem_iff (hresend _ _), hy.forall_mem_iff (hresend _ _),
    hx.forall_mem_iff (hother _ _ (by decide) (by decide)),
    hw.forall_mem_iff (hother _ _ (by decide) (by decide)), hlast _ _ _ (.inr rfl) hb,
    hlast _ _ _ (.inl rfl) ha, and_comm]
  refine and_congr_left fun _ => and_iff_left ⟨?_, ?_, fun _ => nofun⟩
  · exact hother _ _ (by decide) (by decide)
  · exact hother _ _ (by decide) (by decide)

end Initialized

/-- Whatever the ports give: the commands of a successful initialisation are acknowledged
    exactly if the keyboard gives no other answer to them. -/
theorem acknowledged_iff (values : ℕ → Byte) (screen : Vga.Screen)
    (h : (initializeKeyboard (.start values screen)).1 = .ok ()) :
    Acknowledged (initializeKeyboard (.start values screen)).2.log ↔
      Answered (initializeKeyboard (.start values screen)).2.log := by
  obtain ⟨a, b, z, ha, hb, hz, hs⟩ := triple_initializeKeyboard (.start values screen) rfl () h
  rw [Answered, hs, hz.answersProperly_iff ha hb]
  constructor
  · intro hack
    have hreset := hack.reset
    have henable := hack.enable
    rw [lastExchange, hs, hz.find?_reset, Option.some_inj, Exchange.mk.injEq,
      List.cons.injEq] at hreset
    rw [lastExchange, hs, hz.find?_enable, Option.some_inj, Exchange.mk.injEq,
      List.cons.injEq] at henable
    exact ⟨hreset.2.1, henable.2.1⟩
  · rintro ⟨rfl, rfl⟩
    refine ⟨?_, ?_, ?_⟩
    · rw [lastExchange, hs, hz.find?_reset]
    · rw [lastExchange, hs, hz.find?_enable]
    · rw [hs]
      exact hz.countP_le

/-- The ports give the values in turn, and then `0`. -/
def portValues (l : List Byte) (n : ℕ) : Byte := l.getD n 0

def blankScreen : Vga.Screen := ⟨fun _ => 0x0700, ⟨0, 0⟩, [], ⟨0, fun _ => 0⟩⟩

/-- An MF2 keyboard that asks to have the reset sent again, and acknowledges all commands. -/
def mf2Values : List Byte :=
  [0x00, 0x01, 0xFA, 0x00, 0x01, 0xFA, 0x01, 0xAB, 0x01, 0x83,
    0x00, 0x01, 0xFE, 0x00, 0x01, 0xFA, 0x01, 0xAA, 0x00, 0x01, 0xFA]

theorem acknowledged_iff_mf2 :
    (initializeKeyboard (.start (portValues mf2Values) blankScreen)).1 = .ok () ∧
      (Acknowledged (initializeKeyboard (.start (portValues mf2Values) blankScreen)).2.log ↔
        Answered (initializeKeyboard (.start (portValues mf2Values) blankScreen)).2.log) := by
  have h : (initializeKeyboard (.start (portValues mf2Values) blankScreen)).1 = .ok () := by
    decide +kernel
  exact ⟨h, acknowledged_iff _ _ h⟩

/-- The same keyboard, of which a key is pressed before scanning is enabled: the first
    answer to the last command is a scan code. -/
def pressedValues : List Byte := mf2Values.dropLast ++ [0x1C]

/-- The scan code is taken for the acknowledgement. -/
theorem not_acknowledged_pressed :
    (initializeKeyboard (.start (portValues pressedValues) blankScreen)).1 = .ok () ∧
      ¬Acknowledged (initializeKeyboard (.start (portValues pressedValues) blankScreen)).2.log := by
  refine ⟨by decide +kernel, fun h => ?_⟩
  have hlast : lastExchange commandEnableScanning
      (initializeKeyboard (.start (portValues pressedValues) blankScreen)).2.log =
        some ⟨commandEnableScanning, [0x1C]⟩ := by decide +kernel
  have henable := h.enable
  rw [hlast] at henable
  exact absurd henable (by decide)

end Keyboard

end KessokuOS
