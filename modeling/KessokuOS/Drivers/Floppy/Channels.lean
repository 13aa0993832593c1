import KessokuOS.Drivers.Floppy.DmaChannel

/-!
# Any calls to the DMA channels

A call names one channel, and writes the bytes of its registers one after the other. While
it does, the channel is masked: the controller does not serve its device. Hence any calls
leave each channel as the last ones for it ask for (`Call.step`), and the devices that could
be served in between, whenever they are, find their channels as the first `k` of the calls
have left them, for some `k` (`run_channels`).
-/

namespace KessokuOS.Floppy.Dma

open Routine

/-! ## The registers of the channels -/

/-- The controllers, with the modes of the channels. -/
structure Hardware extends Controllers where
  mode : Fin 8 → Byte

/-- What the registers of a channel hold. -/
@[ext]
structure Channel where
  startAddress : BitVec 16
  page : Byte
  count : BitVec 16
  mode : Byte
  masked : Bool
  deriving DecidableEq, Repr

namespace Hardware

/-- A byte on a port. The mode is that of the channel in its lowest bits. -/
def write (d : Hardware) (port : BitVec 16) (v : Byte) : Hardware :=
  if port = 0x0B then { d with mode := Function.update d.mode (channelOf false v) v }
  else if port = 0xD6 then { d with mode := Function.update d.mode (channelOf true v) v }
  else { d with toControllers := d.toControllers.write port v }

/-- The hardware behind the bytes on its ports. -/
def writes (d : Hardware) (l : List (BitVec 16 × Byte)) : Hardware :=
  l.foldl (fun d w => d.write w.1 w.2) d

def channel (d : Hardware) (c : Fin 8) : Channel :=
  ⟨d.startAddress c, d.page c, d.count c, d.mode c, d.masked c⟩

variable {d : Hardware} {port : BitVec 16} {c : Fin 8} {l l' : List (BitVec 16 × Byte)}

theorem writes_append (d : Hardware) (l l' : List (BitVec 16 × Byte)) :
    d.writes (l ++ l') = (d.writes l).writes l' := List.foldl_append

/-- No register but those of the modes is at their ports. -/
theorem write_of_register {r : Register} (h : register port = some r) (d : Hardware) (v : Byte) :
    d.write port v = { d with toControllers := d.toControllers.write port v } := by
  have h₁ : port ≠ 0x0B := by
    rintro rfl
    exact Option.some_ne_none r h.symm
  have h₂ : port ≠ 0xD6 := by
    rintro rfl
    exact Option.some_ne_none r h.symm
  rw [write, if_neg h₁, if_neg h₂]

theorem writes_of_register (h : ∀ w ∈ l, (register w.1).isSome) (d : Hardware) :
    d.writes l = { d with toControllers := d.toControllers.writes l } := by
  induction l generalizing d with
  | nil => rfl
  | cons w l ih =>
    rw [List.forall_mem_cons] at h
    obtain ⟨r, hr⟩ := Option.isSome_iff_exists.1 h.1
    have hcons : d.writes (w :: l) = (d.write w.1 w.2).writes l := rfl
    rw [hcons, ih h.2, write_of_register hr]
    rfl

/-- The port of the mode of a channel. -/
def modePort (c : Fin 8) : BitVec 16 := if second c then 0xD6 else 0x0B

theorem write_modePort {v : Byte} (hv : channelOf (second c) v = c) (d : Hardware) :
    d.write (modePort c) v = { d with mode := Function.update d.mode c v } := by
  rw [modePort]
  cases hs : second c with
  | false =>
    rw [hs] at hv
    rw [if_neg Bool.false_ne_true, write, if_pos rfl, hv]
  | true =>
    rw [hs] at hv
    rw [if_pos rfl, write, if_neg (by decide), if_pos rfl, hv]

/-! ## Channels that are being programmed -/

/-- A byte that changes nothing of the other channels, and leaves the channel `c` masked or
    not as `b` tells. -/
structure Touches (c : Fin 8) (b : Bool → Bool) (w : BitVec 16 × Byte) : Prop where
  others : ∀ (d : Hardware) c', c' ≠ c → (d.write w.1 w.2).channel c' = d.channel c'
  masked_eq : ∀ d : Hardware, (d.write w.1 w.2).masked c = b (d.masked c)

theorem touches_startAddress (h : register port = some (.startAddress c)) (v : Byte) :
    Touches c id (port, v) := by
  refine ⟨fun d c' hc' => ?_, fun d => ?_⟩
  · rw [write_of_register h, Controllers.write, h]
    exact Channel.ext (Function.update_of_ne hc' _ _) rfl rfl rfl rfl
  · rw [write_of_register h, Controllers.write, h]
    rfl

theorem touches_count (h : register port = some (.count c)) (v : Byte) :
    Touches c id (port, v) := by
  refine ⟨fun d c' hc' => ?_, fun d => ?_⟩
  · rw [write_of_register h, Controllers.write, h]
    exact Channel.ext rfl rfl (Function.update_of_ne hc' _ _) rfl rfl
  · rw [write_of_register h, Controllers.write, h]
    rfl

theorem touches_page (h : register port = some (.page c)) (v : Byte) :
    Touches c id (port, v) := by
  refine ⟨fun d c' hc' => ?_, fun d => ?_⟩
  · rw [write_of_register h, Controllers.write, h]
    exact Channel.ext rfl (Function.update_of_ne hc' _ _) rfl rfl rfl
  · rw [write_of_register h, Controllers.write, h]
    rfl

theorem touches_flipFlopReset {b : Bool} (h : register port = some (.flipFlopReset b)) (v : Byte) :
    Touches c id (port, v) := by
  refine ⟨fun d c' hc' => ?_, fun d => ?_⟩
  · rw [write_of_register h, Controllers.write, h]
    rfl
  · rw [write_of_register h, Controllers.write, h]
    rfl

theorem touches_modePort {v : Byte} (hv : channelOf (second c) v = c) :
    Touches c id (modePort c, v) := by
  refine ⟨fun d c' hc' => ?_, fun d => ?_⟩
  · rw [write_modePort hv]
    exact Channel.ext rfl rfl rfl (Function.update_of_ne hc' _ _) rfl
  · rw [write_modePort hv]
    rfl

theorem touches_singleMask (h : register port = some (.singleMask (second c))) {v : Byte}
    (hv : channelOf (second c) v = c) : Touches c (fun _ => v.getLsbD 2) (port, v) := by
  refine ⟨fun d c' hc' => ?_, fun d => ?_⟩
  · rw [write_of_register h, Controllers.write_singleMask h hv]
    exact Channel.ext rfl rfl rfl rfl (Function.update_of_ne hc' _ _)
  · rw [write_of_register h, Controllers.write_singleMask h hv]
    exact Function.update_self ..

/-- Bytes that leave the channel masked as it is. -/
theorem touches_writes (hl : ∀ w ∈ l, Touches c id w) (d : Hardware) :
    (∀ c', c' ≠ c → (d.writes l).channel c' = d.channel c') ∧
      (d.writes l).masked c = d.masked c := by
  induction l generalizing d with
  | nil => exact ⟨fun _ _ => rfl, rfl⟩
  | cons w l ih =>
    rw [List.forall_mem_cons] at hl
    obtain ⟨hothers, hmasked⟩ := ih hl.2 (d.write w.1 w.2)
    exact ⟨fun c' hc' => (hothers c' hc').trans (hl.1.others d c' hc'),
      hmasked.trans (hl.1.masked_eq d)⟩

/-- Before the last of the bytes `l`, each channel is masked, or as before them. -/
def Guarded (l : List (BitVec 16 × Byte)) : Prop :=
  ∀ (d : Hardware) (l' : List (BitVec 16 × Byte)), l' <+: l → l' = l ∨
    ∀ c, ((d.writes l').channel c).masked = true ∨ (d.writes l').channel c = d.channel c

theorem guarded_nil : Guarded [] := fun _ _ hl' => .inl (List.prefix_nil.1 hl')

/-- Bytes to a channel that is masked first, and unmasked last. -/
theorem guarded_of_touches {first last : BitVec 16 × Byte}
    (hfirst : Touches c (fun _ => true) first) (hl : ∀ w ∈ l, Touches c id w) :
    Guarded (first :: (l ++ [last])) := by
  intro d l' hl'
  rcases List.prefix_cons_iff.1 hl' with rfl | ⟨t, rfl, ht⟩
  · exact .inr fun c' => .inr rfl
  rcases List.prefix_concat_iff.1 ht with rfl | ht
  · exact .inl rfl
  · -- The channel is masked from the first byte on.
    obtain ⟨hothers, hmasked⟩ := touches_writes (fun w hw => hl w (ht.subset hw))
      (d.write first.1 first.2)
    refine .inr fun c' => ?_
    by_cases hc : c' = c
    · rw [hc]
      exact .inl (hmasked.trans (hfirst.masked_eq d))
    · exact .inr ((hothers c' hc).trans (hfirst.others d c' hc))

end Hardware

/-! ## The calls -/

/-- A call, with its arguments. -/
inductive Call
  | initializeChannel (channel : Byte) (bufferAddress : BitVec 32) (count : BitVec 16)
  | setMode (channel transferType : Byte) (autoInit down : Bool) (mode : Byte)
  deriving DecidableEq, Repr

/-- The byte that sets a mode. -/
def modeValue (channel transferType : Byte) (autoInit down : Bool) (mode : Byte) : Byte :=
  ((mode &&& 0x03) <<< 6) ||| ((if down then 1 else 0 : Byte) <<< 5) |||
    ((if autoInit then 1 else 0 : Byte) <<< 4) ||| ((transferType &&& 0x03) <<< 2) |||
    (channel &&& 0x03)

/-- The mode for reads of the disk: of the kinds of transfers, the second one. -/
example : modeValue 2 0b10 true false 0b01 = 0x5A := by decide

namespace Call

def channel : Call → Byte
  | .initializeChannel channel _ _ => channel
  | .setMode channel _ _ _ _ => channel

/-- What a call makes of the registers of its channel. -/
def set (x : Channel) : Call → Channel
  | .initializeChannel _ bufferAddress count => { x with
    startAddress := bufferAddress.extractLsb' 0 16
    page := bufferAddress.extractLsb' 16 8
    count := count
    masked := false }
  | .setMode channel transferType autoInit down mode => { x with
    mode := modeValue channel transferType autoInit down mode
    masked := false }

/-- The outcome of a call, and the channels behind it. -/
def step (t : Fin 8 → Channel) (a : Call) : Outcome Error Unit × (Fin 8 → Channel) :=
  if h : a.channel < 8 then
    (.ok (), Function.update t ⟨a.channel.toNat, h⟩ (a.set (t ⟨a.channel.toNat, h⟩)))
  else (.error .indexOutOfRange, t)

variable {δ : Type*} [Device δ]

/-- The call by the driver. -/
def perform (s : State δ) : Call → Outcome Error Unit × State δ
  | .initializeChannel channel bufferAddress count =>
    Dma.initializeChannel channel bufferAddress count s
  | .setMode channel transferType autoInit down mode =>
    Dma.setMode channel transferType autoInit down mode s

end Call

/-! ## What the calls write -/

theorem channelOf_eq (c : Fin 8) {v : Byte} (h : v &&& 0x03 = toByte c &&& 0x03) :
    channelOf (second c) v = c := by
  have hmod : ∀ v : Byte, v.toNat % 4 = (v &&& 0x03).toNat := fun v =>
    (Nat.and_two_pow_sub_one_eq_mod v.toNat 2).symm
  have hc : ∀ c, channelOf (second c) (toByte c) = c := by decide
  have hv : channelOf (second c) v = channelOf (second c) (toByte c) := by
    rw [channelOf, channelOf]
    simp only [hmod, h]
  exact hv.trans (hc c)

/-- The lowest bits of a mode are those of its channel. -/
theorem modeValue_and (channel transferType : Byte) (autoInit down : Bool) (mode : Byte) :
    modeValue channel transferType autoInit down mode &&& 0x03 = channel &&& 0x03 := by
  have hshift : ∀ x : Byte, x <<< 6 &&& 0x03 = 0#8 ∧ x <<< 5 &&& 0x03 = 0#8 ∧
      x <<< 4 &&& 0x03 = 0#8 ∧ x <<< 2 &&& 0x03 = 0#8 := by
    decide +kernel
  have hself : (0x03 : Byte) &&& 0x03 = 0x03 := by decide
  simp only [modeValue, BitVec.and_or_distrib_right, hshift, BitVec.and_assoc, hself,
    BitVec.zero_or]

section Calls

variable {δ : Type*} [Device δ]

omit [Device δ] in
theorem getMode_toByte (c : Fin 8) :
    (getMode (toByte c) : Driver δ (BitVec 16)) = pure (Hardware.modePort c) := by
  have hport : ∀ c, (if toByte c < 4 then 0x0B else 0xD6) = Hardware.modePort c := by decide
  rw [getMode, bind_assert_lt_eight, hport]

/-- The mode of a channel below eight is set through its own port. -/
theorem setMode_toByte (c : Fin 8) (transferType : Byte) (autoInit down : Bool) (mode : Byte) :
    ∃ port, register port = some (.singleMask (second c)) ∧
      (setMode (toByte c) transferType autoInit down mode : Driver δ Unit) =
        portWriteBytes [(port, (toByte c &&& 0x03) ||| 0x04),
          (Hardware.modePort c, modeValue (toByte c) transferType autoInit down mode),
          (port, toByte c &&& 0x03)] := by
  obtain ⟨port, hport, hget⟩ := getSingleChannelMask_toByte (δ := δ) c
  refine ⟨port, hport, ?_⟩
  rw [setMode, hget, getMode_toByte]
  simp only [bind_of_pure, portWriteBytes, portWriteByte_bind_pure]
  cases autoInit <;> cases down <;> rfl

theorem setMode_of_not_lt {channel : Byte} (h : ¬channel < 8) (transferType : Byte)
    (autoInit down : Bool) (mode : Byte) (s : State δ) :
    setMode channel transferType autoInit down mode s = (.error .indexOutOfRange, s) := by
  rw [setMode, getSingleChannelMask, bind_bind]
  exact bind_assert_of_false (decide_eq_false h)

end Calls

/-- The bytes that mask a channel, and unmask it. -/
theorem channelOf_mask (c : Fin 8) : channelOf (second c) (toByte c &&& 0x03 ||| 0x04) = c ∧
    channelOf (second c) (toByte c &&& 0x03) = c := by
  revert c
  decide

namespace Hardware

variable {c : Fin 8} {port : BitVec 16}

theorem touches_mask (h : register port = some (.singleMask (second c))) :
    Touches c (fun _ => true) (port, toByte c &&& 0x03 ||| 0x04) := by
  have hbit : ∀ c, (toByte c &&& 0x03 ||| 0x04).getLsbD 2 = true := by decide
  have hmask := touches_singleMask h (channelOf_mask c).1
  rwa [hbit] at hmask

/-- The channel behind the bytes that set it up. -/
theorem channel_writes_ports {p : Ports} (hp : p.Of c) (d : Hardware) (bufferAddress : BitVec 32)
    (count : BitVec 16) :
    (d.writes (p.writes (toByte c) bufferAddress count)).channel =
      Function.update d.channel c
        ((Call.initializeChannel (toByte c) bufferAddress count).set (d.channel c)) := by
  have hregisters : ∀ w ∈ p.writes (toByte c) bufferAddress count, (register w.1).isSome := by
    simp only [Ports.writes, List.forall_mem_cons, hp.startAddress_eq, hp.page_eq, hp.count_eq,
      hp.mask_eq, hp.flipFlopReset_eq, Option.isSome_some, true_and, List.not_mem_nil,
      false_imp_iff, implies_true]
  rw [writes_of_register hregisters, Controllers.writes_ports hp]
  funext c'
  by_cases hc : c' = c
  · rw [hc, Function.update_self]
    simp only [channel, Controllers.programmed, Function.update_self, Call.set]
  · rw [Function.update_of_ne hc]
    simp only [channel, Controllers.programmed, Function.update_of_ne hc]

theorem guarded_ports {p : Ports} (hp : p.Of c) (bufferAddress : BitVec 32) (count : BitVec 16) :
    Guarded (p.writes (toByte c) bufferAddress count) := by
  have hmiddle : ∀ w ∈ [(p.flipFlopReset, (0xFF : Byte)),
      (p.startAddress, (bufferAddress >>> 0 &&& 0xFF).setWidth 8),
      (p.startAddress, (bufferAddress >>> 8 &&& 0xFF).setWidth 8),
      (p.page, (bufferAddress >>> 16 &&& 0xFF).setWidth 8),
      (p.flipFlopReset, 0xFF),
      (p.count, (count >>> 0 &&& 0xFF).setWidth 8),
      (p.count, (count >>> 8 &&& 0xFF).setWidth 8)], Touches c id w := by
    simp only [List.forall_mem_cons, touches_flipFlopReset hp.flipFlopReset_eq,
      touches_startAddress hp.startAddress_eq, touches_page hp.page_eq, touches_count hp.count_eq,
      true_and, List.not_mem_nil, false_imp_iff, implies_true]
  exact guarded_of_touches (touches_mask hp.mask_eq) hmiddle

theorem channel_writes_mode (h : register port = some (.singleMask (second c))) {v : Byte}
    (hv : channelOf (second c) v = c) (d : Hardware) :
    (d.writes [(port, toByte c &&& 0x03 ||| 0x04), (modePort c, v),
        (port, toByte c &&& 0x03)]).channel =
      Function.update d.channel c { d.channel c with mode := v, masked := false } := by
  have hbit : ∀ c, (toByte c &&& 0x03).getLsbD 2 = false := by decide
  simp only [writes, List.foldl_cons, List.foldl_nil, write_of_register h, write_modePort hv,
    Controllers.write_singleMask h (channelOf_mask c).1,
    Controllers.write_singleMask h (channelOf_mask c).2, hbit, Function.update_idem]
  funext c'
  by_cases hc : c' = c
  · rw [hc, Function.update_self]
    simp only [channel, Function.update_self]
  · rw [Function.update_of_ne hc]
    simp only [channel, Function.update_of_ne hc]

theorem guarded_mode (h : register port = some (.singleMask (second c))) {v : Byte}
    (hv : channelOf (second c) v = c) :
    Guarded [(port, toByte c &&& 0x03 ||| 0x04), (modePort c, v), (port, toByte c &&& 0x03)] := by
  have hmiddle : ∀ w ∈ [(modePort c, v)], Touches c id w :=
    List.forall_mem_singleton.2 (touches_modePort hv)
  exact guarded_of_touches (touches_mask h) hmiddle

end Hardware

/-! ## Runs of calls -/

namespace Call

variable {δ : Type*} [Device δ]

theorem step_of_lt {a : Call} {c : Fin 8} (h : a.channel = toByte c) (t : Fin 8 → Channel) :
    step t a = (.ok (), Function.update t c (a.set (t c))) := by
  have hc : ∀ c, ∃ h : toByte c < 8, (⟨(toByte c).toNat, h⟩ : Fin 8) = c := by decide
  obtain ⟨hlt, heq⟩ := hc c
  rw [step, dif_pos (h ▸ hlt)]
  simp only [h, heq]

theorem step_of_not_lt {a : Call} (h : ¬a.channel < 8) (t : Fin 8 → Channel) :
    step t a = (.error .indexOutOfRange, t) := dif_neg h

/-- A call writes bytes that guard its channel, and make of it what the call asks for. -/
theorem exists_wrote_perform (a : Call) (s : State δ) :
    ∃ w, Wrote w s (perform s a).2 ∧ Hardware.Guarded w ∧ ∀ d : Hardware,
      (perform s a).1 = (step d.channel a).1 ∧ (d.writes w).channel = (step d.channel a).2 := by
  by_cases hlt : a.channel < 8
  · obtain ⟨c, hc⟩ := exists_toByte hlt
    simp only [step_of_lt hc]
    cases a with
    | initializeChannel channel bufferAddress count =>
      obtain rfl : channel = toByte c := hc
      obtain ⟨p, hp, heq⟩ := initializeChannel_toByte (δ := δ) c bufferAddress count
      rw [perform, heq]
      have hwrote := wrote_portWriteBytes (p.writes (toByte c) bufferAddress count) s
      exact ⟨_, hwrote.2, Hardware.guarded_ports hp _ _, fun d =>
        ⟨hwrote.1, d.channel_writes_ports hp bufferAddress count⟩⟩
    | setMode channel transferType autoInit down mode =>
      obtain rfl : channel = toByte c := hc
      obtain ⟨port, hport, heq⟩ := setMode_toByte (δ := δ) c transferType autoInit down mode
      rw [perform, heq]
      have hv := channelOf_eq c (modeValue_and (toByte c) transferType autoInit down mode)
      have hwrote := wrote_portWriteBytes [(port, (toByte c &&& 0x03) ||| 0x04),
        (Hardware.modePort c, modeValue (toByte c) transferType autoInit down mode),
        (port, toByte c &&& 0x03)] s
      exact ⟨_, hwrote.2, Hardware.guarded_mode hport hv, fun d =>
        ⟨hwrote.1, d.channel_writes_mode hport hv⟩⟩
  · simp only [step_of_not_lt hlt]
    have hperform : perform s a = (.error .indexOutOfRange, s) := by
      cases a with
      | initializeChannel channel bufferAddress count =>
        exact initializeChannel_of_not_lt hlt bufferAddress count s
      | setMode channel transferType autoInit down mode =>
        exact setMode_of_not_lt hlt transferType autoInit down mode s
    rw [hperform]
    exact ⟨[], .refl s, Hardware.guarded_nil, fun d => ⟨rfl, rfl⟩⟩

end Call

/-- The prefixes of two lists one behind the other. -/
theorem prefix_of_prefix_append {α : Type*} {l l₁ l₂ : List α} (h : l <+: l₁ ++ l₂) :
    (l <+: l₁ ∧ l ≠ l₁) ∨ ∃ t, l = l₁ ++ t ∧ t <+: l₂ := by
  rcases List.prefix_or_prefix_of_prefix h (List.prefix_append l₁ l₂) with hl | ⟨t, rfl⟩
  · by_cases heq : l = l₁
    · exact .inr ⟨[], by rw [heq, List.append_nil], List.nil_prefix⟩
    · exact .inl ⟨hl, heq⟩
  · exact .inr ⟨t, rfl, (List.prefix_append_right_inj l₁).1 h⟩

/-- Any calls have the outcomes of `Call.step`, and leave the channels as it does, whatever
    happens in between. Meanwhile there always is a number `k` such that the channels that
    are not masked are as the first `k` calls leave them. -/
theorem run_channels {δ : Type*} [Device δ] (d : Hardware) (s : State δ) (calls : List Call) :
    (Machine.run Call.perform s calls).1 = (Machine.run Call.step d.channel calls).1 ∧
      ∃ w, Wrote w s (Machine.run Call.perform s calls).2 ∧
        (d.writes w).channel = (Machine.run Call.step d.channel calls).2 ∧
        ∀ v, v <+: w → ∃ k ≤ calls.length, ∀ c, ((d.writes v).channel c).masked = true ∨
          (d.writes v).channel c = (Machine.run Call.step d.channel (calls.take k)).2 c := by
  induction calls generalizing d s with
  | nil =>
    refine ⟨rfl, [], .refl s, rfl, fun v hv => ⟨0, le_rfl, fun c => .inr ?_⟩⟩
    rw [List.prefix_nil.1 hv]
    rfl
  | cons a calls ih =>
    obtain ⟨w, hw, hguarded, hstep⟩ := a.exists_wrote_perform s
    obtain ⟨ho, hchannel⟩ := hstep d
    obtain ⟨hos, w', hw', hchannels, hbetween⟩ := ih (d.writes w) (Call.perform s a).2
    rw [hchannel] at hos hchannels hbetween
    refine ⟨by rw [Machine.run, Machine.run, ho, hos], w ++ w', hw.trans hw', ?_, ?_⟩
    · rw [Hardware.writes_append, hchannels, Machine.run]
    · intro v hv
      rcases prefix_of_prefix_append hv with ⟨hv, hne⟩ | ⟨t, rfl, ht⟩
      · -- In the bytes of the first call, but not behind them.
        exact ⟨0, Nat.zero_le _, (hguarded d v hv).resolve_left hne⟩
      · obtain ⟨k, hk, hc⟩ := hbetween t ht
        refine ⟨k + 1, Nat.succ_le_succ hk, ?_⟩
        rw [Hardware.writes_append]
        exact hc

end KessokuOS.Floppy.Dma
