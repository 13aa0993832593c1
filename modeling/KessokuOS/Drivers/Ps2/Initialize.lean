import KessokuOS.Drivers.Keyboard.Initialize

/-!
# The initialisation of the PS/2 controller

The devices are disabled, the configuration is read, changed and written, the controller
and the first port are tested, and the first device is enabled. The commands are written
without a look at the status, with an access to another port behind them that takes
some time.

* `initialize_writes`: what is written to the controller, whatever the ports give. The
  interrupt of the first device is enabled as the last thing, and not at all after an
  error.
-/

namespace KessokuOS

namespace PS2

open Routine

def commandRegisterPort : BitVec 16 := 0x64

def disableFirstPs2 : Byte := 0xAD

def enableFirstPs2 : Byte := 0xAE

def disableSecondPs2 : Byte := 0xA7

def readControllerConfigByte : Byte := 0x20

def writeControllerConfigByte : Byte := 0x60

def performSelfTest : Byte := 0xAA

def testFirstPs2Port : Byte := 0xAB

def ioWait : Driver Unit := portWriteByte 0x80 0

/-- Writes the configuration. -/
def writeConfig (configByte : Byte) : Driver Unit := do
  portWriteByte commandRegisterPort writeControllerConfigByte
  sendToDevice configByte
  ioWait

/-- Has something tested, and fails with a message if the result is another one. -/
def runTest (command expected : Byte) (message : String) : Driver Unit := do
  portWriteByte commandRegisterPort command
  let result ← getResponse
  when (result ≠ expected) do
    display (Vga.Screen.putString (Keyboard.text message))
    throw .driverDeviceCheckFailed

/-- What `initialize` does with the configuration. -/
def configure (configByte : Byte) : Driver Unit := do
  let newConfigByte := configByte &&& 0b00110100
  writeConfig newConfigByte
  runTest performSelfTest 0x55 "PS2: Self test failed\n"
  writeConfig newConfigByte
  runTest testFirstPs2Port 0x00 "PS2: first device interface test failed\n"
  ioWait
  portWriteByte commandRegisterPort enableFirstPs2
  ioWait
  writeConfig (newConfigByte ||| 0b00000001)

/-- `PS2::initialize`. -/
def initializeController : Driver Unit := do
  portWriteByte commandRegisterPort disableFirstPs2
  ioWait
  portWriteByte commandRegisterPort disableSecondPs2
  ioWait
  let _ ← portReadByte dataPort
  ioWait
  portWriteByte commandRegisterPort readControllerConfigByte
  let configByte ← getResponse
  configure configByte

/-! ## What is written -/

/-- A byte written to the controller. -/
def written : PortAccess → Option (BitVec 16 × Byte)
  | .writeByte port v => if port = 0x80 then none else some (port, v)
  | .readByte _ _ => none

def writes (l : List PortAccess) : List (BitVec 16 × Byte) := l.filterMap written

/-- What `configure` writes. -/
def configureScript (configByte : Byte) : List (BitVec 16 × Byte) :=
  [(commandRegisterPort, writeControllerConfigByte), (dataPort, configByte &&& 0x34),
    (commandRegisterPort, performSelfTest),
    (commandRegisterPort, writeControllerConfigByte), (dataPort, configByte &&& 0x34),
    (commandRegisterPort, testFirstPs2Port), (commandRegisterPort, enableFirstPs2),
    (commandRegisterPort, writeControllerConfigByte), (dataPort, configByte &&& 0x34 ||| 0x01)]

/-- What `initialize` writes if it finds the configuration `configByte`. -/
def initializeScript (configByte : Byte) : List (BitVec 16 × Byte) :=
  [(commandRegisterPort, disableFirstPs2), (commandRegisterPort, disableSecondPs2),
    (commandRegisterPort, readControllerConfigByte)] ++ configureScript configByte

/-- So far, `w` has been written. -/
def Wrote (w : List (BitVec 16 × Byte)) (s : State) : Prop := writes s.log = w

section Accesses

variable {w : List (BitVec 16 × Byte)}

theorem wrote_concat {s : State} {a : PortAccess} (hs : Wrote w s) :
    writes (s.log ++ [a]) = w ++ (written a).toList := by
  rw [writes, List.filterMap_append, ← writes, hs]
  cases h : written a <;> simp [h]

theorem wrote_portReadByte (port : BitVec 16) : Triple (Wrote w) (portReadByte port) fun r s =>
    ∃ v, r = .ok v ∧ Wrote w s :=
  fun _ hs => ⟨_, rfl, (wrote_concat hs).trans (List.append_nil w)⟩

theorem wrote_ioWait : Triple (Wrote w) ioWait fun r s => ∃ a, r = .ok a ∧ Wrote w s :=
  fun _ hs => ⟨(), rfl, (wrote_concat hs).trans (List.append_nil w)⟩

theorem wrote_portWriteByte {port : BitVec 16} (hport : port ≠ 0x80) (v : Byte) :
    Triple (Wrote w) (portWriteByte port v) fun r s =>
      ∃ a, r = .ok a ∧ Wrote (w ++ [(port, v)]) s := by
  refine fun s hs => ⟨(), rfl, (wrote_concat hs).trans ?_⟩
  rw [written, if_neg hport]
  rfl

end Accesses

/-- With a value, the routine has written `l`, and with an error not more than `m`. -/
def Writes {α : Type} (f : Driver α) (l m : List (BitVec 16 × Byte)) : Prop :=
  ∀ w, Triple (Wrote w) f fun r s => (∃ a, r = .ok a ∧ Wrote (w ++ l) s) ∨
    (∃ e, r = .error e) ∧ ∃ l', l' <+: m ∧ Wrote (w ++ l') s

section Writes

variable {α β : Type} {f : Driver α} {g : α → Driver β} {l l' m m' : List (BitVec 16 × Byte)}

theorem Writes.bind (hf : Writes f l m) (hg : ∀ a, Writes (g a) l' m') (hm : m <+: l ++ m') :
    Writes (f >>= g) (l ++ l') (l ++ m') := by
  intro w s hs
  have hq := hf w s hs
  rcases h : f s with ⟨o, s'⟩
  rw [h] at hq
  rcases hq with ⟨a, rfl, hs'⟩ | ⟨⟨e, rfl⟩, l₁, hl₁, hs'⟩
  · rw [bind_of_ok h]
    rcases hg a (w ++ l) s' hs' with ⟨b, hr, h₂⟩ | ⟨hr, l₂, hl₂, h₂⟩
    · exact .inl ⟨b, hr, by rwa [← List.append_assoc]⟩
    · refine .inr ⟨hr, l ++ l₂, ?_, by rwa [← List.append_assoc]⟩
      exact (List.prefix_append_right_inj l).2 hl₂
  · rw [bind_of_error h]
    exact .inr ⟨⟨e, rfl⟩, l₁, hl₁.trans hm, hs'⟩

/-- What does not fail and writes nothing, behind a routine. -/
theorem Writes.bind_silent (hf : Writes f l m)
    (hg : ∀ a w, Triple (Wrote w) (g a) fun r s => ∃ b, r = .ok b ∧ Wrote w s) :
    Writes (f >>= g) l m := by
  intro w s hs
  have hq := hf w s hs
  rcases h : f s with ⟨o, s'⟩
  rw [h] at hq
  rcases hq with ⟨a, rfl, hs'⟩ | ⟨⟨e, rfl⟩, herror⟩
  · rw [bind_of_ok h]
    exact .inl (hg a _ s' hs')
  · rw [bind_of_error h]
    exact .inr ⟨⟨e, rfl⟩, herror⟩

theorem writes_of_triple
    (hf : ∀ w, Triple (Wrote w) f fun r s => ∃ a, r = .ok a ∧ Wrote (w ++ l) s) :
    Writes f l [] := fun w s hs => .inl (hf w s hs)

theorem writes_portReadByte (port : BitVec 16) : Writes (portReadByte port) [] [] :=
  writes_of_triple fun w => by simpa using wrote_portReadByte port

theorem writes_ioWait : Writes ioWait [] [] := writes_of_triple fun w => by simpa using wrote_ioWait

theorem writes_portWriteByte {port : BitVec 16} (hport : port ≠ 0x80) (v : Byte) :
    Writes (portWriteByte port v) [(port, v)] [] :=
  writes_of_triple fun _ => wrote_portWriteByte hport v

theorem writes_assert (c : Bool) (e : Error) : Writes (assert c e) [] [] := by
  intro w s hs
  cases c with
  | true => exact .inl ⟨_, rfl, by rwa [List.append_nil]⟩
  | false => exact .inr ⟨⟨_, rfl⟩, [], List.prefix_rfl, by rwa [List.append_nil]⟩

theorem Writes.retry (hf : Writes f l []) (n : ℕ) : Writes (Routine.retry f n) l [] := by
  intro w
  refine Triple.retry (hf w) ?_ n
  rintro e s (⟨a, h, -⟩ | ⟨-, l', hl', hs⟩)
  · exact nomatch h
  · rwa [List.prefix_nil.1 hl', List.append_nil] at hs

theorem writes_sendToDevice (v : Byte) : Writes (sendToDevice v) [(dataPort, v)] [] :=
  ((writes_portReadByte _).bind (fun _ => (writes_assert _ _).bind (fun _ =>
    writes_portWriteByte (by decide) v) (List.nil_prefix ..)) (List.nil_prefix ..)).retry _

theorem writes_getResponse : Writes getResponse [] [] :=
  ((writes_portReadByte _).bind (fun _ => (writes_assert _ _).bind (fun _ =>
    writes_portReadByte _) (List.nil_prefix ..)) (List.nil_prefix ..)).retry _

theorem writes_writeConfig (v : Byte) : Writes (writeConfig v)
    [(commandRegisterPort, writeControllerConfigByte), (dataPort, v)]
    [(commandRegisterPort, writeControllerConfigByte)] :=
  (writes_portWriteByte (by decide) _).bind
    (fun _ => (writes_sendToDevice v).bind_silent fun _ _ => wrote_ioWait) (List.nil_prefix ..)

theorem writes_runTest {command : Byte} (expected : Byte) (message : String) :
    Writes (runTest command expected message) [(commandRegisterPort, command)]
      [(commandRegisterPort, command)] := by
  have hcheck : ∀ result, Writes (when (result ≠ expected) do
      display (Vga.Screen.putString (Keyboard.text message))
      throw .driverDeviceCheckFailed) [] [] := by
    intro result w s hs
    cases decide (result ≠ expected) with
    | true => exact .inr ⟨⟨_, rfl⟩, [], List.prefix_rfl, by rw [List.append_nil]; exact hs⟩
    | false => exact .inl ⟨_, rfl, by rw [List.append_nil]; exact hs⟩
  exact (writes_portWriteByte (by decide) _).bind
    (fun _ => writes_getResponse.bind hcheck (List.nil_prefix ..)) (List.nil_prefix ..)

theorem writes_configure (configByte : Byte) :
    Writes (configure configByte) (configureScript configByte)
      (configureScript configByte).dropLast :=
  (writes_writeConfig _).bind (fun _ => (writes_runTest _ _).bind (fun _ =>
    (writes_writeConfig _).bind (fun _ => (writes_runTest _ _).bind (fun _ =>
      writes_ioWait.bind (fun _ => (writes_portWriteByte (by decide) _).bind (fun _ =>
        writes_ioWait.bind (fun _ => writes_writeConfig _)
          (List.nil_prefix ..)) (List.nil_prefix ..)) (List.nil_prefix ..))
        ⟨_, rfl⟩) ⟨_, rfl⟩) ⟨_, rfl⟩) ⟨_, rfl⟩

end Writes

/-- Whatever the ports give, the initialisation writes what it should for some
    configuration, with the interrupts disabled up to the last byte; if it fails, it has
    not come to this one. -/
theorem initialize_writes (values : ℕ → Byte) (screen : Vga.Screen) : ∃ configByte,
    ((initializeController (.start values screen)).1 = .ok () ∧
      writes (initializeController (.start values screen)).2.log = initializeScript configByte) ∨
    (∃ e, (initializeController (.start values screen)).1 = .error e) ∧
      writes (initializeController (.start values screen)).2.log <+:
        (initializeScript configByte).dropLast := by
  have hrun : Triple (Wrote []) initializeController fun r s => ∃ configByte,
      (r = .ok () ∧ writes s.log = initializeScript configByte) ∨
      (∃ e, r = .error e) ∧ writes s.log <+: (initializeScript configByte).dropLast := by
    refine (wrote_portWriteByte (by decide) _).bind_ok fun _ => wrote_ioWait.bind_ok fun _ => ?_
    refine (wrote_portWriteByte (by decide) _).bind_ok fun _ => wrote_ioWait.bind_ok fun _ => ?_
    refine (wrote_portReadByte _).bind_ok fun _ => wrote_ioWait.bind_ok fun _ => ?_
    refine (wrote_portWriteByte (by decide) _).bind_ok fun _ => ?_
    refine (writes_getResponse _).bind (fun configByte => ?_) ?_ ?_
    · rintro s (⟨_, ⟨⟩, hs⟩ | ⟨⟨e, h⟩, -⟩)
      · rcases writes_configure configByte _ s hs with ⟨_, hr, hs'⟩ | ⟨hr, l', hl', hs'⟩
        · exact ⟨configByte, .inl ⟨hr, hs'⟩⟩
        · refine ⟨configByte, .inr ⟨hr, hs' ▸ ?_⟩⟩
          exact (List.prefix_append_right_inj _).2 hl'
      · exact nomatch h
    · rintro e s (⟨a, h, -⟩ | ⟨-, l', hl', hs⟩)
      · exact nomatch h
      · rw [List.prefix_nil.1 hl'] at hs
        exact ⟨0, .inr ⟨⟨e, rfl⟩, hs ▸ ⟨_, rfl⟩⟩⟩
    · rintro s (⟨a, h, -⟩ | ⟨⟨e, h⟩, -⟩)
      · exact nomatch h
      · exact nomatch h
  exact hrun (.start values screen) rfl

end PS2

end KessokuOS
