import KessokuOS.Drivers.Floppy.SelectDrive

/-!
# The channels of the DMA controllers

Two controllers have four channels each. The registers of a channel have 16 bits, and are
written in two bytes; which of them is next is kept by a flip-flop of the controller. The
upper bits of an address are in a page register apart from the controllers.

The addresses of the second controller count words: the lowest bit of the page register is
not used, and the address in the registers is doubled (`Controllers.address`).
`Dma.initializeChannel` writes the bytes of the address as they are to both of them, and
does not check whether the registers can hold it.

* `Controllers.writes_ports`: what the registers hold behind the bytes of a call, whatever
  they held before;
* `exists_wrote_initializeChannel`: a call writes these bytes to the ports of its channel;
* `initializesChannel_iff`: the channels of the first controller begin at every address
  below `2 ^ 24` as asked for, those of the second one only at the multiples of `2 ^ 17`.
-/

namespace KessokuOS.Floppy.Dma

open Routine

/-! ## The controllers -/

/-- What a port writes: a register of a channel, or one of a controller. -/
inductive Register
  | startAddress (channel : Fin 8)
  | count (channel : Fin 8)
  | page (channel : Fin 8)
  | singleMask (second : Bool)
  | flipFlopReset (second : Bool)
  deriving DecidableEq, Repr

/-- The register at a port; the other ports of the controllers are not used here. -/
def register (port : BitVec 16) : Option Register :=
  match port.toNat with
  | 0x00 => some (.startAddress 0)
  | 0x01 => some (.count 0)
  | 0x02 => some (.startAddress 1)
  | 0x03 => some (.count 1)
  | 0x04 => some (.startAddress 2)
  | 0x05 => some (.count 2)
  | 0x06 => some (.startAddress 3)
  | 0x07 => some (.count 3)
  | 0x0A => some (.singleMask false)
  | 0x0C => some (.flipFlopReset false)
  | 0x81 => some (.page 2)
  | 0x82 => some (.page 3)
  | 0x83 => some (.page 1)
  | 0x87 => some (.page 0)
  | 0x89 => some (.page 6)
  | 0x8A => some (.page 7)
  | 0x8B => some (.page 5)
  | 0x8F => some (.page 4)
  | 0xC0 => some (.startAddress 4)
  | 0xC2 => some (.count 4)
  | 0xC4 => some (.startAddress 5)
  | 0xC6 => some (.count 5)
  | 0xC8 => some (.startAddress 6)
  | 0xCA => some (.count 6)
  | 0xCC => some (.startAddress 7)
  | 0xCE => some (.count 7)
  | 0xD4 => some (.singleMask true)
  | 0xD8 => some (.flipFlopReset true)
  | _ => none

/-- The channel is one of the second controller. -/
def second (c : Fin 8) : Bool := 4 ≤ c.val

/-- The address of the channel counts words. The channel 4 connects the first controller to
    the processor: what an address of its own would count is left open. -/
abbrev CountsWords (fourth : Bool) (channel : ℕ) : Prop :=
  4 < channel ∨ channel = 4 ∧ fourth = true

/-- The channel of a controller by its number there, in the two lowest bits. -/
def channelOf (second : Bool) (v : Byte) : Fin 8 :=
  ⟨(if second then 4 else 0) + v.toNat % 4, by split_ifs <;> omega⟩

/-- Both controllers and the page registers. -/
structure Controllers where
  /-- The next byte of a register is the high one. -/
  flipFlop : Bool → Bool
  startAddress : Fin 8 → BitVec 16
  count : Fin 8 → BitVec 16
  page : Fin 8 → Byte
  masked : Fin 8 → Bool

namespace Controllers

/-- A byte of a register of the channel, with the flip-flops `f`. -/
def putByte (f : Bool → Bool) (c : Fin 8) (x : BitVec 16) (v : Byte) : BitVec 16 :=
  if f (second c) then v ++ x.extractLsb' 0 8 else x.extractLsb' 8 8 ++ v

/-- Goes on to the other byte, for the controller of the channel. -/
def toggle (f : Bool → Bool) (c : Fin 8) : Bool → Bool :=
  Function.update f (second c) !f (second c)

/-- A byte on a port. -/
def write (d : Controllers) (port : BitVec 16) (v : Byte) : Controllers :=
  match register port with
  | some (.startAddress c) => { d with
      startAddress := Function.update d.startAddress c
        (putByte d.flipFlop c (d.startAddress c) v)
      flipFlop := toggle d.flipFlop c }
  | some (.count c) => { d with
      count := Function.update d.count c (putByte d.flipFlop c (d.count c) v)
      flipFlop := toggle d.flipFlop c }
  | some (.page c) => { d with page := Function.update d.page c v }
  | some (.singleMask second) => { d with
      masked := Function.update d.masked (channelOf second v) (v.getLsbD 2) }
  | some (.flipFlopReset second) => { d with
      flipFlop := Function.update d.flipFlop second false }
  | none => d

/-- Where the transfers of a channel begin. -/
def address (d : Controllers) (fourth : Bool) (c : Fin 8) : ℕ :=
  if CountsWords fourth c then (d.page c).toNat / 2 * 2 ^ 17 + (d.startAddress c).toNat * 2
  else (d.page c).toNat * 2 ^ 16 + (d.startAddress c).toNat

/-- The controllers behind the bytes on their ports. -/
def writes (d : Controllers) (l : List (BitVec 16 × Byte)) : Controllers :=
  l.foldl (fun d w => d.write w.1 w.2) d

variable {d : Controllers} {port : BitVec 16} {c : Fin 8}

theorem write_flipFlopReset (h : register port = some (.flipFlopReset (second c))) (v : Byte) :
    d.write port v = { d with flipFlop := Function.update d.flipFlop (second c) false } := by
  rw [write, h]

theorem write_page (h : register port = some (.page c)) (v : Byte) :
    d.write port v = { d with page := Function.update d.page c v } := by
  rw [write, h]

theorem write_singleMask (h : register port = some (.singleMask (second c))) {v : Byte}
    (hv : channelOf (second c) v = c) :
    d.write port v = { d with masked := Function.update d.masked c (v.getLsbD 2) } := by
  rw [write, h]
  exact congrArg (fun c' => { d with masked := Function.update d.masked c' (v.getLsbD 2) }) hv

/-- Behind both bytes, the next one is what it was before. -/
theorem toggle_toggle (f : Bool → Bool) (c : Fin 8) : toggle (toggle f c) c = f := by
  rw [toggle, toggle, Function.update_self, Bool.not_not, Function.update_idem,
    Function.update_eq_self]

/-- The low byte is written, and then the high one. -/
theorem putByte_putByte {f : Bool → Bool} (hf : f (second c) = false) (x : BitVec 16)
    (lo hi : Byte) : putByte (toggle f c) c (putByte f c x lo) hi = hi ++ lo := by
  have htoggle : toggle f c (second c) = true := by
    rw [toggle, Function.update_self, hf, Bool.not_false]
  rw [putByte, putByte, htoggle, hf]
  exact congrArg (hi ++ ·) BitVec.extractLsb'_append_eq_right

/-- Two bytes to the address of a channel, whose controller expects the low one. -/
theorem write_startAddress (h : register port = some (.startAddress c))
    (hf : d.flipFlop (second c) = false) (lo hi : Byte) :
    (d.write port lo).write port hi =
      { d with startAddress := Function.update d.startAddress c (hi ++ lo) } := by
  simp only [write, h, Function.update_self, Function.update_idem, putByte_putByte hf,
    toggle_toggle]

/-- The same for its count. -/
theorem write_count (h : register port = some (.count c))
    (hf : d.flipFlop (second c) = false) (lo hi : Byte) :
    (d.write port lo).write port hi =
      { d with count := Function.update d.count c (hi ++ lo) } := by
  simp only [write, h, Function.update_self, Function.update_idem, putByte_putByte hf,
    toggle_toggle]

/-- The channel is set up for an address and a count, and unmasked. -/
def programmed (d : Controllers) (c : Fin 8) (bufferAddress : BitVec 32) (count : BitVec 16) :
    Controllers where
  flipFlop := Function.update d.flipFlop (second c) false
  startAddress := Function.update d.startAddress c (bufferAddress.extractLsb' 0 16)
  count := Function.update d.count c count
  page := Function.update d.page c (bufferAddress.extractLsb' 16 8)
  masked := Function.update d.masked c false

end Controllers

/-! ## The bytes on the ports -/

/-- A channel, as it is passed to the routines. -/
def toByte (c : Fin 8) : Byte := BitVec.ofNat 8 c.val

theorem toByte_injective : Function.Injective toByte := by decide

theorem exists_toByte {channel : Byte} (h : channel < 8) : ∃ c, channel = toByte c :=
  ⟨⟨channel.toNat, h⟩, (BitVec.ofNat_toNat 8 channel).symm⟩

/-- A byte of a number. -/
theorem setWidth_and {w : ℕ} (hw : 8 ≤ w) (x : BitVec w) (k : ℕ) :
    ((x >>> k &&& 0xFF).setWidth 8 : Byte) = x.extractLsb' k 8 := by
  have hff : (0xFF : BitVec w).toNat = 2 ^ 8 - 1 := by
    refine Nat.mod_eq_of_lt (Nat.lt_of_lt_of_le ?_ (Nat.pow_le_pow_right Nat.two_pos hw))
    decide
  refine BitVec.eq_of_toNat_eq ?_
  rw [BitVec.toNat_setWidth, BitVec.toNat_and, BitVec.toNat_ushiftRight, hff,
    Nat.and_two_pow_sub_one_eq_mod, Nat.mod_mod, BitVec.extractLsb'_toNat]

/-- The two lower bytes. -/
theorem setWidth_append {w : ℕ} (hw : 8 ≤ w) (x : BitVec w) :
    ((x >>> 8 &&& 0xFF).setWidth 8 : Byte) ++ ((x >>> 0 &&& 0xFF).setWidth 8 : Byte) =
      x.extractLsb' 0 16 := by
  rw [setWidth_and hw, setWidth_and hw]
  exact BitVec.extractLsb'_append_extractLsb'_eq_extractLsb' rfl

/-- The ports of a channel. -/
structure Ports where
  startAddress : BitVec 16
  page : BitVec 16
  count : BitVec 16
  mask : BitVec 16
  flipFlopReset : BitVec 16

/-- They are those of its registers. -/
structure Ports.Of (p : Ports) (c : Fin 8) : Prop where
  startAddress_eq : register p.startAddress = some (.startAddress c)
  page_eq : register p.page = some (.page c)
  count_eq : register p.count = some (.count c)
  mask_eq : register p.mask = some (.singleMask (second c))
  flipFlopReset_eq : register p.flipFlopReset = some (.flipFlopReset (second c))

/-- What is written to set up a channel. -/
def Ports.writes (p : Ports) (channel : Byte) (bufferAddress : BitVec 32) (count : BitVec 16) :
    List (BitVec 16 × Byte) :=
  [(p.mask, (channel &&& 0x03) ||| 0x04),
    (p.flipFlopReset, 0xFF),
    (p.startAddress, (bufferAddress >>> 0 &&& 0xFF).setWidth 8),
    (p.startAddress, (bufferAddress >>> 8 &&& 0xFF).setWidth 8),
    (p.page, (bufferAddress >>> 16 &&& 0xFF).setWidth 8),
    (p.flipFlopReset, 0xFF),
    (p.count, (count >>> 0 &&& 0xFF).setWidth 8),
    (p.count, (count >>> 8 &&& 0xFF).setWidth 8),
    (p.mask, channel &&& 0x03)]

/-- Whatever the registers held before, they are set up. -/
theorem Controllers.writes_ports {p : Ports} {c : Fin 8} (hp : p.Of c) (d : Controllers)
    (bufferAddress : BitVec 32) (count : BitVec 16) :
    d.writes (p.writes (toByte c) bufferAddress count) = d.programmed c bufferAddress count := by
  have hmask : ∀ c, channelOf (second c) (toByte c &&& 0x03 ||| 0x04) = c ∧
      (toByte c &&& 0x03 ||| 0x04).getLsbD 2 = true := by
    decide
  have hunmask : ∀ c, channelOf (second c) (toByte c &&& 0x03) = c ∧
      (toByte c &&& 0x03).getLsbD 2 = false := by
    decide
  rw [Controllers.writes, Ports.writes]
  -- Both registers are written behind a reset of the flip-flop.
  simp only [List.foldl_cons, List.foldl_nil, write_singleMask hp.mask_eq (hmask c).1,
    write_flipFlopReset hp.flipFlopReset_eq, write_startAddress hp.startAddress_eq,
    write_page hp.page_eq, write_count hp.count_eq, write_singleMask hp.mask_eq (hunmask c).1,
    Function.update_self]
  simp only [Function.update_idem, (hunmask c).2]
  rw [setWidth_append (by decide), setWidth_append (by decide), setWidth_and (by decide),
    BitVec.extractLsb'_eq_self, programmed]

/-! ## What a call writes -/

section Calls

variable {δ : Type*}

/-- The byte of an event on a port. -/
def portWrite : Event δ → Option (BitVec 16 × Byte)
  | .writeByte _ port v _ => some (port, v)
  | _ => none

/-- The bytes `l` have been written to ports. -/
def Wrote (l : List (BitVec 16 × Byte)) (s s' : State δ) : Prop :=
  ∃ events, s'.log = s.log ++ events ∧ events.filterMap portWrite = l

variable {l l' : List (BitVec 16 × Byte)} {s s' s'' : State δ}

theorem Wrote.refl (s : State δ) : Wrote [] s s := ⟨[], (List.append_nil _).symm, rfl⟩

theorem Wrote.trans (h : Wrote l s s') (h' : Wrote l' s' s'') : Wrote (l ++ l') s s'' := by
  obtain ⟨events, hlog, rfl⟩ := h
  obtain ⟨events', hlog', rfl⟩ := h'
  exact ⟨events ++ events', by rw [hlog', hlog, List.append_assoc], List.filterMap_append⟩

theorem Wrote.unique (h : Wrote l s s') (h' : Wrote l' s s') : l = l' := by
  obtain ⟨events, hlog, rfl⟩ := h
  obtain ⟨events', hlog', rfl⟩ := h'
  rw [List.append_cancel_left (hlog.symm.trans hlog')]

variable [Device δ]

theorem wrote_portWriteByte (role : Role) (port : BitVec 16) (v : Byte) (s : State δ) :
    Wrote [(port, v)] s (portWriteByte role port v s).2 := by
  have hturn : Wrote [] s s.turn := by
    obtain ⟨events, hlog, hevents⟩ := logs_turn (G := fun e => portWrite e = none) (fun _ => rfl) s
    exact ⟨events, hlog, List.filterMap_eq_nil_iff.2 hevents⟩
  exact hturn.trans ⟨[.writeByte role port v s.turn.device], rfl, rfl⟩

/-- The bytes are written in their order. -/
def portWriteBytes : List (BitVec 16 × Byte) → Driver δ Unit
  | [] => pure ()
  | w :: l => do
    portWriteByte .setting w.1 w.2
    portWriteBytes l

theorem portWriteByte_bind_pure (role : Role) (port : BitVec 16) (v : Byte) :
    (portWriteByte role port v >>= fun _ => pure () : Driver δ Unit) =
      portWriteByte role port v := rfl

theorem wrote_portWriteBytes (l : List (BitVec 16 × Byte)) (s : State δ) :
    (portWriteBytes l s).1 = .ok () ∧ Wrote l s (portWriteBytes l s).2 := by
  induction l generalizing s with
  | nil => exact ⟨rfl, .refl s⟩
  | cons w l ih =>
    have hw := wrote_portWriteByte .setting w.1 w.2 s
    exact ⟨(ih _).1, hw.trans (ih _).2⟩

omit [Device δ] in
theorem bind_assert_lt_eight (c : Fin 8) {α : Type} (g : Unit → Driver δ α) :
    (assert (toByte c < 8) .indexOutOfRange >>= g) = g () := by
  have hc : ∀ c, toByte c < 8 := by decide
  funext s
  exact bind_assert_of_true (decide_eq_true (hc c))

omit [Device δ] in
/-- The tables have the port of each channel. -/
theorem getPort_toByte (ports : List (BitVec 16)) {r : Fin 8 → Register}
    (h : ∀ c : Fin 8, register (ports.getD (toByte c).toNat 0) = some (r c)) (c : Fin 8) :
    ∃ port, register port = some (r c) ∧
      (getPort ports (toByte c) : Driver δ (BitVec 16)) = pure port :=
  ⟨_, h c, bind_assert_lt_eight c _⟩

omit [Device δ] in
theorem getSingleChannelMask_toByte (c : Fin 8) :
    ∃ port, register port = some (.singleMask (second c)) ∧
      (getSingleChannelMask (toByte c) : Driver δ (BitVec 16)) = pure port := by
  have hport : ∀ c, register (if toByte c < 4 then 0x0A else 0xD4) =
      some (.singleMask (second c)) := by
    decide
  exact ⟨if toByte c < 4 then 0x0A else 0xD4, hport c, bind_assert_lt_eight c _⟩

omit [Device δ] in
theorem getFlipFlopReset_toByte (c : Fin 8) :
    ∃ port, register port = some (.flipFlopReset (second c)) ∧
      (getFlipFlopReset (toByte c) : Driver δ (BitVec 16)) = pure port := by
  have hport : ∀ c, register (if toByte c < 4 then 0x0C else 0xD8) =
      some (.flipFlopReset (second c)) := by
    decide
  exact ⟨if toByte c < 4 then 0x0C else 0xD8, hport c, bind_assert_lt_eight c _⟩

/-- A channel below eight is set up through its own ports. -/
theorem initializeChannel_toByte (c : Fin 8) (bufferAddress : BitVec 32) (count : BitVec 16) :
    ∃ p : Ports, p.Of c ∧ (initializeChannel (toByte c) bufferAddress count : Driver δ Unit) =
      portWriteBytes (p.writes (toByte c) bufferAddress count) := by
  obtain ⟨start, hstart, hgetStart⟩ := getPort_toByte
    [0x00, 0x02, 0x04, 0x06, 0xC0, 0xC4, 0xC8, 0xCC] (r := .startAddress) (by decide) c
  obtain ⟨page, hpage, hgetPage⟩ := getPort_toByte
    [0x87, 0x83, 0x81, 0x82, 0x8F, 0x8B, 0x89, 0x8A] (r := .page) (by decide) c
  obtain ⟨port, hcount, hgetCount⟩ := getPort_toByte
    [0x01, 0x03, 0x05, 0x07, 0xC2, 0xC6, 0xCA, 0xCE] (r := .count) (by decide) c
  obtain ⟨mask, hmask, hgetMask⟩ := getSingleChannelMask_toByte c
  obtain ⟨reset, hreset, hgetReset⟩ := getFlipFlopReset_toByte c
  refine ⟨⟨start, page, port, mask, reset⟩, ⟨hstart, hpage, hcount, hmask, hreset⟩, ?_⟩
  rw [initializeChannel, getStartAddressPort, getPageAddressPort, getCountPort, hgetStart,
    hgetPage, hgetCount, hgetMask, hgetReset]
  simp only [bind_of_pure, Ports.writes, portWriteBytes, portWriteByte_bind_pure]

/-- A call succeeds, and writes what sets up the channel. -/
theorem exists_wrote_initializeChannel (c : Fin 8) (bufferAddress : BitVec 32)
    (count : BitVec 16) (s : State δ) :
    (initializeChannel (toByte c) bufferAddress count s).1 = .ok () ∧
      ∃ l, Wrote l s (initializeChannel (toByte c) bufferAddress count s).2 ∧
        ∀ d : Controllers, d.writes l = d.programmed c bufferAddress count := by
  obtain ⟨p, hp, h⟩ := initializeChannel_toByte (δ := δ) c bufferAddress count
  rw [h]
  have hwrote := wrote_portWriteBytes (p.writes (toByte c) bufferAddress count) s
  exact ⟨hwrote.1, _, hwrote.2, fun d => d.writes_ports hp bufferAddress count⟩

/-- No other channel is known to the tables. -/
theorem initializeChannel_of_not_lt {channel : Byte} (h : ¬channel < 8)
    (bufferAddress : BitVec 32) (count : BitVec 16) (s : State δ) :
    initializeChannel channel bufferAddress count s = (.error .indexOutOfRange, s) := by
  rw [initializeChannel, getStartAddressPort, getPort, bind_bind]
  exact bind_assert_of_false (decide_eq_false h)

end Calls

/-! ## Where the transfers begin -/

/-- The controllers `d'` are the controllers `d` with the channel set up as asked for. -/
structure Programmed (fourth : Bool) (c : Fin 8) (bufferAddress : BitVec 32) (count : BitVec 16)
    (d d' : Controllers) : Prop where
  unmasked : d'.masked c = false
  address_eq : d'.address fourth c = bufferAddress.toNat
  count_eq : d'.count c = count
  others : ∀ c' ≠ c, d'.startAddress c' = d.startAddress c' ∧ d'.count c' = d.count c' ∧
    d'.page c' = d.page c' ∧ d'.masked c' = d.masked c'

/-- There are values of the registers with which the transfers begin at the address. -/
def Expressible (fourth : Bool) (c : Fin 8) (bufferAddress : BitVec 32) : Prop :=
  ∃ d : Controllers, d.address fourth c = bufferAddress.toNat

section Address

variable {fourth : Bool} {c : Fin 8} {bufferAddress : BitVec 32}

/-- The address that is written is the one asked for, as far as it is a multiple of the
    pages of both kinds. -/
theorem address_programmed_eq_iff (count : BitVec 16) (d : Controllers) :
    (d.programmed c bufferAddress count).address fourth c = bufferAddress.toNat ↔
      bufferAddress.toNat < 2 ^ 24 ∧ (CountsWords fourth c → 2 ^ 17 ∣ bufferAddress.toNat) := by
  have hlow : (bufferAddress.extractLsb' 0 16).toNat = bufferAddress.toNat % 2 ^ 16 :=
    BitVec.extractLsb'_toNat ..
  have hpage : (bufferAddress.extractLsb' 16 8).toNat = bufferAddress.toNat / 2 ^ 16 % 2 ^ 8 := by
    rw [BitVec.extractLsb'_toNat, Nat.shiftRight_eq_div_pow]
  rw [Controllers.address, Controllers.programmed]
  simp only [Function.update_self, hlow, hpage]
  split_ifs with hwords
  · -- The address in the registers is doubled: only zero is its double.
    simp only [hwords, true_imp_iff]
    omega
  · simp only [hwords, false_imp_iff, and_true]
    omega

theorem programmed_iff (count : BitVec 16) (d : Controllers) :
    Programmed fourth c bufferAddress count d (d.programmed c bufferAddress count) ↔
      bufferAddress.toNat < 2 ^ 24 ∧ (CountsWords fourth c → 2 ^ 17 ∣ bufferAddress.toNat) := by
  rw [← address_programmed_eq_iff count d]
  refine ⟨Programmed.address_eq, fun h => ⟨Function.update_self .., h, Function.update_self .., ?_⟩⟩
  intro c' hc'
  exact ⟨Function.update_of_ne hc' .., Function.update_of_ne hc' .., Function.update_of_ne hc' ..,
    Function.update_of_ne hc' ..⟩

end Address

/-! ## Which calls set up their channel -/

section Channels

variable {δ : Type*} [Device δ]

/-- A call that succeeds sets up the channel, whatever the controllers were before; one with
    a channel that there is not, or that cannot express the address, fails without a byte
    on a port. -/
def InitializesChannel (fourth : Bool) (channel : Byte) (bufferAddress : BitVec 32)
    (count : BitVec 16) (s : State δ) : Prop :=
  ∃ l, Wrote l s (initializeChannel channel bufferAddress count s).2 ∧
    (∀ u, (initializeChannel channel bufferAddress count s).1 = .ok u → ∃ c, channel = toByte c ∧
      ∀ d : Controllers, Programmed fourth c bufferAddress count d (d.writes l)) ∧
    ((∀ c, channel = toByte c → ¬Expressible fourth c bufferAddress) →
      (∃ e, (initializeChannel channel bufferAddress count s).1 = .error e) ∧ l = [])

theorem initializesChannel_toByte (fourth : Bool) (c : Fin 8) (bufferAddress : BitVec 32)
    (count : BitVec 16) (s : State δ) :
    InitializesChannel fourth (toByte c) bufferAddress count s ↔
      bufferAddress.toNat < 2 ^ 24 ∧ (CountsWords fourth c → 2 ^ 17 ∣ bufferAddress.toNat) := by
  obtain ⟨hok, l, hl, hd⟩ := exists_wrote_initializeChannel c bufferAddress count s
  -- The values before do not matter: any will do.
  let d : Controllers := ⟨fun _ => false, fun _ => 0, fun _ => 0, fun _ => 0, fun _ => false⟩
  constructor
  · rintro ⟨l', hl', hset, -⟩
    obtain ⟨c', hc', hset⟩ := hset () hok
    obtain rfl := toByte_injective hc'
    have hprogrammed := hset d
    rw [hl'.unique hl, hd] at hprogrammed
    exact (programmed_iff count d).1 hprogrammed
  · intro h
    refine ⟨l, hl, fun _ _ => ⟨c, rfl, fun d => hd d ▸ (programmed_iff count d).2 h⟩,
      fun hnot => ?_⟩
    exact absurd ⟨_, (address_programmed_eq_iff count d).2 h⟩ (hnot c rfl)

/-- For every device, whatever happens between the steps and whatever the registers hold:
    a call does what is asked of it exactly if the channel is rejected, or the address is
    below `2 ^ 24`, and a multiple of `2 ^ 17` where it counts words. -/
theorem initializesChannel_iff (fourth : Bool) (channel : Byte) (bufferAddress : BitVec 32)
    (count : BitVec 16) (s : State δ) :
    InitializesChannel fourth channel bufferAddress count s ↔
      (channel < 8 → bufferAddress.toNat < 2 ^ 24 ∧
        (CountsWords fourth channel.toNat → 2 ^ 17 ∣ bufferAddress.toNat)) := by
  by_cases h : channel < 8
  · obtain ⟨c, rfl⟩ := exists_toByte h
    have hc : ∀ c, (toByte c).toNat = c.val := by decide
    rw [initializesChannel_toByte, hc, imp_iff_right h]
  · have hcall := initializeChannel_of_not_lt h bufferAddress count s
    refine iff_of_true ⟨[], ?_, ?_, ?_⟩ fun h' => absurd h' h
    · rw [hcall]
      exact .refl s
    · rw [hcall]
      exact nofun
    · rw [hcall]
      exact fun _ => ⟨⟨_, rfl⟩, rfl⟩

/-- The transfers of a channel of the second controller begin at zero instead. -/
theorem not_initializesChannel_sample :
    ¬InitializesChannel false 5 0x10000 0xFF
      (.start (Controller.expecting 0) fun _ => ⟨[], .timer⟩ : State Controller) := by
  intro h
  have hfits := (initializesChannel_toByte false 5 0x10000 0xFF _).1 h
  have hnot : ¬(2 ^ 17 ∣ (0x10000 : BitVec 32).toNat) := by decide
  exact hnot (hfits.2 (.inl (by decide)))

end Channels

end KessokuOS.Floppy.Dma
