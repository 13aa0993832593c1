import KessokuOS.Drivers.Floppy.Channels
import KessokuOS.Drivers.Floppy.Reads

/-!
# The transfers of the reads

The bytes of a cylinder do not pass the driver: the DMA controller transfers them between
the floppy disk controller and its buffer, through the channel `2`. The initialisation sets
this channel up for the buffer, and every read sets its mode, for which it is masked.

* `readData_through`: behind the initialisation, the command to read is only sent while the
  channel is set up for the buffer and unmasked, and the others are as they were; from then
  on no channel is served in any other state.
-/

namespace KessokuOS.Floppy

open Routine Dma

variable {δ : Type*}

/-! ## The channels behind a log -/

/-- The command to read is sent. -/
def Event.ReadsData : Event δ → Prop
  | .writeByte .command _ v _ => v = Command.readData.toByte
  | _ => False

/-- The DMA controllers behind the events of a log. -/
def hardware (d : Hardware) (l : List (Event δ)) : Hardware := d.writes (l.filterMap portWrite)

/-- In the events, the disk is read through the channels `t` only: the command is sent when
    they are so, and a channel that is not is masked from then on. -/
structure Through (d : Hardware) (t : Fin 8 → Channel) (l : List (Event δ)) : Prop where
  sent : ∀ l₁ e l₂, l = l₁ ++ e :: l₂ → e.ReadsData → (hardware d l₁).channel = t
  since : ∀ l₁, l₁ <+: l → (∃ e ∈ l₁, e.ReadsData) → ∀ c,
    ((hardware d l₁).channel c).masked = true ∨ (hardware d l₁).channel c = t c

section Through

variable {d : Hardware} {t : Fin 8 → Channel} {l l' : List (Event δ)}

theorem hardware_append (d : Hardware) (l l' : List (Event δ)) :
    hardware d (l ++ l') = hardware (hardware d l) l' := by
  rw [hardware, List.filterMap_append, Hardware.writes_append]
  rfl

theorem through_of_not_readsData (h : ∀ e ∈ l, ¬e.ReadsData) : Through d t l where
  sent := by
    rintro l₁ e l₂ rfl he
    exact absurd he (h e List.mem_append_cons_self)
  since := by
    rintro l₁ hl₁ ⟨e, he, hread⟩
    exact absurd hread (h e (hl₁.subset he))

/-- Events behind which each channel is masked, or one of `t`. -/
theorem Through.append (h : Through d t l)
    (hsent : ∀ l₁ e l₂, l' = l₁ ++ e :: l₂ → e.ReadsData →
      (hardware (hardware d l) l₁).channel = t)
    (hsince : ∀ l₁, l₁ <+: l' → ∀ c, ((hardware (hardware d l) l₁).channel c).masked = true ∨
      (hardware (hardware d l) l₁).channel c = t c) : Through d t (l ++ l') where
  sent := by
    intro l₁ e l₂ heq he
    rcases List.append_eq_append_iff.1 heq with ⟨m, rfl, heq'⟩ | ⟨m, rfl, heq'⟩
    · rw [hardware_append]
      exact hsent m e l₂ heq' he
    · cases m with
      | nil =>
        rw [List.append_nil] at hsent
        exact hsent [] e l₂ heq'.symm he
      | cons x m =>
        obtain ⟨rfl, -⟩ := List.cons.inj heq'
        exact h.sent l₁ e m rfl he
  since := by
    intro l₁ hl₁ hread
    rcases prefix_of_prefix_append hl₁ with ⟨hl₁, -⟩ | ⟨m, rfl, hm⟩
    · exact h.since l₁ hl₁ hread
    · rw [hardware_append]
      exact hsince m hm

end Through

/-! ## What does not concern the channels -/

/-- The port is none of the DMA controllers. -/
def Beside (port : BitVec 16) : Prop := register port = none ∧ port ≠ 0x0B ∧ port ≠ 0xD6

instance : DecidablePred Beside := fun _ => inferInstanceAs (Decidable (_ ∧ _))

theorem Beside.write {port : BitVec 16} (h : Beside port) (d : Hardware) (v : Byte) :
    d.write port v = d := by
  rw [Hardware.write, if_neg h.2.1, if_neg h.2.2, Controllers.write, h.1]

/-- Nothing is written to the DMA controllers, and the command to read is sent only if
    `reads` holds. -/
def Event.Elsewhere (reads : Prop) : Event δ → Prop
  | .writeByte role port v _ =>
    Beside port ∧ (role = .command → v = Command.readData.toByte → reads)
  | _ => True

theorem Event.Elsewhere.not_readsData {reads : Prop} (h : ¬reads) {e : Event δ}
    (he : e.Elsewhere reads) : ¬e.ReadsData := by
  cases e with
  | writeByte role port v device =>
    cases role with
    | command => exact fun hv => h (he.2 rfl hv)
    | parameter => exact id
    | setting => exact id
  | _ => exact id

theorem hardware_of_elsewhere {reads : Prop} {l : List (Event δ)}
    (h : ∀ e ∈ l, e.Elsewhere reads) (d : Hardware) : hardware d l = d := by
  induction l with
  | nil => rfl
  | cons e l ih =>
    rw [List.forall_mem_cons] at h
    have hone : hardware d [e] = d := by
      cases e with
      | writeByte role port v device => exact h.1.1.write d v
      | _ => rfl
    rw [← List.singleton_append, hardware_append, hone, ih h.2]

section Elsewhere

variable [Device δ] {reads : Prop}

theorem keeps_elsewhere_portWriteByte {role : Role} (h : role ≠ .command) {port : BitVec 16}
    (hport : Beside port) (v : Byte) :
    Keeps (Logs (Event.Elsewhere reads)) (portWriteByte role port v : Driver δ Unit) := fun _ =>
  logs_step (fun _ => trivial) rfl ⟨hport, fun hrole => absurd hrole h⟩

theorem keeps_elsewhere_portReadByte (port : BitVec 16) :
    Keeps (Logs (Event.Elsewhere reads)) (portReadByte port : Driver δ Byte) := fun _ =>
  logs_step (fun _ => trivial) rfl trivial

theorem keeps_elsewhere_getTicks : Keeps (Logs (Event.Elsewhere reads)) (getTicks : Driver δ ℕ) :=
  fun _ => logs_step (fun _ => trivial) rfl trivial

theorem keeps_elsewhere_halt : Keeps (Logs (Event.Elsewhere reads)) (halt : Driver δ Unit) :=
  keeps_logs_halt (fun _ => trivial) trivial

theorem keeps_elsewhere_setWaiting :
    Keeps (Logs (Event.Elsewhere reads)) (setWaiting : Driver δ Unit) :=
  fun _ => logs_step (fun _ => trivial) rfl trivial

theorem keeps_elsewhere_waitForIrq (fuel : ℕ) :
    Keeps (Logs (Event.Elsewhere reads)) (waitForIrq fuel : Driver δ Unit) :=
  keeps_waitForIrq keeps_elsewhere_getTicks (fun _ => logs_step (fun _ => trivial) rfl trivial)
    keeps_elsewhere_halt (fun _ s => logs_record trivial s) fuel

theorem keeps_elsewhere_sendCommand (fuel : ℕ) {c : Command} (hc : c = .readData → reads) :
    Keeps (Logs (Event.Elsewhere reads)) (sendCommand fuel c : Driver δ Unit) := by
  have hcommand : c.toByte = Command.readData.toByte → reads := fun h => by
    have hsome := congrArg Command.ofByte h
    rw [Command.ofByte_toByte, Command.ofByte_toByte] at hsome
    exact hc (Option.some.inj hsome)
  refine (keeps_elsewhere_portReadByte _).bind fun _ => (Keeps.assert _ _).bind fun _ => ?_
  refine Keeps.bind (fun s => logs_step (fun _ => trivial) rfl
    ⟨by decide, fun _ => hcommand⟩) fun _ => ?_
  refine (Keeps.when keeps_elsewhere_setWaiting).bind fun _ => ?_
  refine (keeps_sendParametersFrom (keeps_elsewhere_portReadByte _)
    (keeps_elsewhere_portWriteByte (by decide) (by decide)) 0 _).bind fun _ => ?_
  refine (Keeps.when (keeps_elsewhere_waitForIrq fuel)).bind fun _ => ?_
  exact keeps_receiveResults keeps_elsewhere_portReadByte (fun _ _ => logs_of_log_eq rfl) c

theorem keeps_elsewhere_executeCommand (fuel : ℕ) {c : Command} (hc : c = .readData → reads)
    (ps : List Byte) :
    Keeps (Logs (Event.Elsewhere reads)) (executeCommand fuel c ps : Driver δ Unit) :=
  keeps_executeCommand (fun _ _ => logs_of_log_eq rfl) (keeps_elsewhere_sendCommand fuel hc) ps

theorem keeps_elsewhere_selectDrive (fuel : ℕ) (drive : Byte) (motorOn : Bool) :
    Keeps (Logs (Event.Elsewhere reads)) (selectDrive fuel drive motorOn : Driver δ Unit) :=
  keeps_selectDrive (fun _ _ => logs_of_log_eq rfl) (fun _ _ _ => logs_of_log_eq rfl)
    (keeps_elsewhere_portWriteByte (by decide) (by decide))
    (keeps_elsewhere_portWriteByte (by decide) (by decide))
    (keeps_elsewhere_sendCommand fuel fun h => absurd h (by decide))
    keeps_elsewhere_getTicks keeps_elsewhere_halt drive motorOn

theorem keeps_elsewhere_reset (fuel : ℕ) (drive : Byte) (motorOn : Bool) :
    Keeps (Logs (Event.Elsewhere reads)) (reset fuel drive motorOn : Driver δ Unit) := by
  refine keeps_elsewhere_setWaiting.bind fun _ => ?_
  refine (keeps_elsewhere_portWriteByte (by decide) (by decide) _).bind fun _ => ?_
  refine (keeps_elsewhere_waitForIrq fuel).bind fun _ => ?_
  exact keeps_elsewhere_selectDrive fuel drive motorOn

end Elsewhere

/-! ## Before the first command, and from then on -/

section Reads

variable {l₀ : List (Event δ)} {d : Hardware} {t t' : Fin 8 → Channel} {s s' : State δ}

/-- No command to read has been sent since `l₀`. -/
def Pending (l₀ : List (Event δ)) (d : Hardware) (t : Fin 8 → Channel) (s : State δ) : Prop :=
  ∃ l, s.log = l₀ ++ l ∧ (∀ e ∈ l, ¬e.ReadsData) ∧ (hardware d l).channel = t

/-- All of them have been sent through the channels `t`, which the next one may be. -/
def Prepared (l₀ : List (Event δ)) (d : Hardware) (t : Fin 8 → Channel) (s : State δ) : Prop :=
  ∃ l, s.log = l₀ ++ l ∧ Through d t l ∧ (hardware d l).channel = t

theorem Pending.logs (h : Logs (Event.Elsewhere False) s s') (hs : Pending l₀ d t s) :
    Pending l₀ d t s' := by
  obtain ⟨l, hlog, hread, ht⟩ := hs
  obtain ⟨l', hlog', hl'⟩ := h
  refine ⟨l ++ l', by rw [hlog', hlog, List.append_assoc], fun e he => ?_, ?_⟩
  · exact (List.mem_append.1 he).elim (hread e) fun he => (hl' e he).not_readsData id
  · rw [hardware_append, hardware_of_elsewhere hl', ht]

theorem Prepared.logs {reads : Prop} (h : Logs (Event.Elsewhere reads) s s')
    (hs : Prepared l₀ d t s) : Prepared l₀ d t s' := by
  obtain ⟨l, hlog, hthrough, ht⟩ := hs
  obtain ⟨l', hlog', hl'⟩ := h
  have hsame : ∀ l₁, l₁ <+: l' → (hardware (hardware d l) l₁).channel = t := fun l₁ hl₁ => by
    rw [hardware_of_elsewhere (fun e he => hl' e (hl₁.subset he)), ht]
  refine ⟨l ++ l', by rw [hlog', hlog, List.append_assoc], hthrough.append ?_ ?_, ?_⟩
  · rintro l₁ e l₂ rfl -
    exact hsame l₁ (List.prefix_append _ _)
  · exact fun l₁ hl₁ c => .inr (congrFun (hsame l₁ hl₁) c)
  · rw [hardware_append, hsame l' (List.prefix_refl l')]

variable [Device δ]

/-- What a call logs. -/
theorem exists_logged_perform (a : Call) (s : State δ) :
    ∃ l, (Call.perform s a).2.log = s.log ++ l ∧ (∀ e ∈ l, ¬e.ReadsData) ∧
      Hardware.Guarded (l.filterMap portWrite) ∧ ∀ d : Hardware,
        (Call.perform s a).1 = (Call.step d.channel a).1 ∧
          (hardware d l).channel = (Call.step d.channel a).2 := by
  have hwrite : ∀ port v, Keeps (Logs fun e => ¬e.ReadsData)
      (portWriteByte .setting port v : Driver δ Unit) := fun _ _ _ =>
    logs_step (fun _ => id) rfl id
  have hport : ∀ (channel : Byte) (port : BitVec 16), Keeps (Logs fun e => ¬e.ReadsData) (do
      assert (channel < 8) .indexOutOfRange
      pure port : Driver δ (BitVec 16)) := fun _ _ =>
    (Keeps.assert _ _).bind fun _ => Keeps.pure _
  have hkeeps : Logs (fun e => ¬e.ReadsData) s (Call.perform s a).2 := by
    cases a with
    | initializeChannel channel bufferAddress count =>
      refine Keeps.bind (hport _ _) (fun _ => ?_) s
      refine (hport _ _).bind fun _ => (hport _ _).bind fun _ => ?_
      refine (hport _ _).bind fun _ => (hport _ _).bind fun _ => ?_
      exact (hwrite _ _).bind fun _ => (hwrite _ _).bind fun _ => (hwrite _ _).bind fun _ =>
        (hwrite _ _).bind fun _ => (hwrite _ _).bind fun _ => (hwrite _ _).bind fun _ =>
        (hwrite _ _).bind fun _ => (hwrite _ _).bind fun _ => hwrite _ _
    | setMode channel transferType autoInit down mode =>
      refine Keeps.bind (hport _ _) (fun _ => (hport _ _).bind fun _ => ?_) s
      exact (hwrite _ _).bind fun _ => (hwrite _ _).bind fun _ => hwrite _ _
  obtain ⟨l, hlog, hl⟩ := hkeeps
  obtain ⟨w, ⟨l', hlog', rfl⟩, hguarded, hstep⟩ := a.exists_wrote_perform s
  obtain rfl : l = l' := List.append_cancel_left (hlog.symm.trans hlog')
  exact ⟨l, hlog, hl, hguarded, hstep⟩

/-- A call before the first command. -/
theorem Pending.perform (hs : Pending l₀ d t s) (a : Call) :
    Pending l₀ d (Call.step t a).2 (Call.perform s a).2 := by
  obtain ⟨l, hlog, hread, rfl⟩ := hs
  obtain ⟨l', hlog', hread', -, hstep⟩ := exists_logged_perform a s
  refine ⟨l ++ l', by rw [hlog', hlog, List.append_assoc], fun e he => ?_, ?_⟩
  · exact (List.mem_append.1 he).elim (hread e) (hread' e)
  · rw [hardware_append, (hstep _).2]

omit [Device δ] in
theorem Pending.prepared (hs : Pending l₀ d t s) : Prepared l₀ d t s := by
  obtain ⟨l, hlog, hread, ht⟩ := hs
  exact ⟨l, hlog, through_of_not_readsData hread, ht⟩

/-- A call that leaves the channels as they are. -/
theorem Prepared.perform (hs : Prepared l₀ d t s) {a : Call} (ha : (Call.step t a).2 = t) :
    Prepared l₀ d t (Call.perform s a).2 := by
  obtain ⟨l, hlog, hthrough, rfl⟩ := hs
  obtain ⟨l', hlog', hread, hguarded, hstep⟩ := exists_logged_perform a s
  have hbehind : (hardware (hardware d l) l').channel = (hardware d l).channel :=
    (hstep _).2.trans ha
  refine ⟨l ++ l', by rw [hlog', hlog, List.append_assoc], hthrough.append ?_ ?_, ?_⟩
  · rintro l₁ e l₂ rfl he
    exact absurd he (hread e List.mem_append_cons_self)
  · intro l₁ hl₁ c
    -- Only the channel of the call differs in between, and it is masked.
    rcases hguarded (hardware d l) _ (hl₁.filterMap portWrite) with heq | hbetween
    · rw [hardware, heq]
      exact .inr (congrFun hbehind c)
    · exact hbetween c
  · rw [hardware_append, hbehind]

end Reads

/-! ## The driver -/

/-- What the channel of the disk holds while a cylinder is read. -/
def readChannel (dmaBuffer : BitVec 32) : Channel where
  startAddress := dmaBuffer.extractLsb' 0 16
  page := dmaBuffer.extractLsb' 16 8
  count := 0x47FF
  mode := 0x5A
  masked := false

/-- The call of the initialisation. -/
def setUp (dmaBuffer : BitVec 32) : Call := .initializeChannel 2 dmaBuffer (dmaBufferSize - 1)

/-- The call of every read. -/
def setRead : Call := .setMode 2 0b10 true false 0b01

/-- Both calls leave the channel as it is read through. -/
theorem step_setRead (dmaBuffer : BitVec 32) (t : Fin 8 → Channel) :
    (Call.step (Call.step t (setUp dmaBuffer)).2 setRead).2 =
      Function.update t 2 (readChannel dmaBuffer) := by
  rw [Call.step_of_lt (c := 2) rfl, Call.step_of_lt (c := 2) rfl]
  simp only [Function.update_self, Function.update_idem]
  rfl

theorem step_setRead_self (dmaBuffer : BitVec 32) (t : Fin 8 → Channel) :
    (Call.step (Function.update t 2 (readChannel dmaBuffer)) setRead).2 =
      Function.update t 2 (readChannel dmaBuffer) := by
  rw [Call.step_of_lt (c := 2) rfl]
  simp only [Function.update_self, Function.update_idem]
  rfl

section Driver

variable [Device δ] {l₀ : List (Event δ)} {d : Hardware} {dmaBuffer : BitVec 32}
  {s : State δ}

/-- Between two reads: there has been none to send its command so far, or the channel is as
    they are read through. -/
def Reading (l₀ : List (Event δ)) (d : Hardware) (dmaBuffer : BitVec 32) (s : State δ) : Prop :=
  Pending l₀ d (Call.step d.channel (setUp dmaBuffer)).2 s ∨
    Prepared l₀ d (Call.step (Call.step d.channel (setUp dmaBuffer)).2 setRead).2 s

theorem triple_setRead : Triple (Reading l₀ d dmaBuffer)
    (Dma.setMode 2 0b10 true false 0b01 : Driver δ Unit)
      fun _ => Prepared l₀ d (Call.step (Call.step d.channel (setUp dmaBuffer)).2 setRead).2 := by
  rintro s (hs | hs)
  · exact (hs.perform setRead).prepared
  · have hself : (Call.step (Call.step (Call.step d.channel (setUp dmaBuffer)).2 setRead).2
        setRead).2 = (Call.step (Call.step d.channel (setUp dmaBuffer)).2 setRead).2 := by
      rw [step_setRead, step_setRead_self]
    exact hs.perform hself

theorem keeps_reading_readCylinder (fuel : ℕ) (drive cylinder : Byte) :
    Keeps (Preserves (Reading l₀ d dmaBuffer))
      (readCylinder fuel drive cylinder : Driver δ Unit) := by
  have hselect : Keeps (Preserves (Reading l₀ d dmaBuffer))
      (selectDrive fuel drive true : Driver δ Unit) := by
    intro s hs
    have hlogs : Logs (Event.Elsewhere False) s (selectDrive fuel drive true s).2 :=
      keeps_elsewhere_selectDrive fuel drive true s
    exact hs.imp (Pending.logs hlogs) (Prepared.logs hlogs)
  have hexecute : ∀ ps, Keeps
      (Preserves (Prepared l₀ d (Call.step (Call.step d.channel (setUp dmaBuffer)).2 setRead).2))
      (executeCommand fuel .readData ps : Driver δ Unit) := fun ps s hs =>
    hs.logs (keeps_elsewhere_executeCommand (c := .readData) fuel (fun _ => trivial) ps s)
  change Triple (Reading l₀ d dmaBuffer) (readCylinder fuel drive cylinder)
    fun _ => Reading l₀ d dmaBuffer
  refine hselect.triple.bind (fun _ => ?_) (fun _ _ => id) fun _ => id
  refine triple_setRead.bind (fun _ => ?_) (fun _ _ => .inr) fun _ => .inr
  exact fun s hs => .inr (((Keeps.get _).bind fun _ => hexecute _) s hs)

/-- The initialisation ends with the call that sets up the channel. -/
theorem triple_initializeFloppyDisk_setUp (fuel : ℕ) (dmaBuffer : BitVec 32) :
    Triple (Pending l₀ d d.channel) (initializeFloppyDisk fuel dmaBuffer : Driver δ Unit)
      fun r s => ∀ a, r = .ok a → Reading l₀ d dmaBuffer s := by
  have hkeeps : ∀ {α : Type} {f : Driver δ α}, Keeps (Logs (Event.Elsewhere False)) f →
      Triple (Pending l₀ d d.channel) f fun r s => ∀ a, r = .ok a → Pending l₀ d d.channel s :=
    fun hf s hs _ _ => hs.logs (hf s)
  have hcommand : ∀ c, c ≠ .readData → ∀ ps, Triple (Pending l₀ d d.channel)
      (executeCommand fuel c ps : Driver δ Unit)
      fun r s => ∀ a, r = .ok a → Pending l₀ d d.channel s :=
    fun c hc ps => hkeeps (keeps_elsewhere_executeCommand fuel hc ps)
  refine (hkeeps fun s => logs_of_log_eq rfl).bind_value fun _ => ?_
  refine (hcommand _ (by decide) _).bind_value fun _ => ?_
  refine (hkeeps (Keeps.get _)).bind_value fun _ => ?_
  refine (hkeeps (Keeps.assert _ _)).bind_value fun _ => ?_
  refine (hcommand _ (by decide) _).bind_value fun _ => ?_
  refine (hcommand _ (by decide) _).bind_value fun _ => ?_
  refine (hkeeps (keeps_elsewhere_reset fuel 0 true)).bind_value fun _ => ?_
  refine (hcommand _ (by decide) _).bind_value fun _ => ?_
  refine (hcommand _ (by decide) _).bind_value fun _ => ?_
  refine (hcommand _ (by decide) _).bind_value fun _ => ?_
  exact fun s hs _ _ => .inl (hs.perform (setUp dmaBuffer))

/-- For every device and whatever happens between the steps: in any reads behind the
    initialisation, of any drives, the command to read is sent through the channel of the
    buffer only, and no channel is served in any other state from then on. -/
theorem readData_through (fuel : ℕ) (dmaBuffer : BitVec 32) (s : State δ)
    (hinit : (initializeFloppyDisk fuel dmaBuffer s).1 = .ok ()) (d : Hardware)
    (calls : List (Byte × Byte)) :
    ∃ l, (Machine.run (fun s p => readCylinder fuel p.1 p.2 s)
        (initializeFloppyDisk fuel dmaBuffer s).2 calls).2.log = s.log ++ l ∧
      Through d (Function.update d.channel 2 (readChannel dmaBuffer)) l := by
  have hstart : Pending s.log d d.channel s := ⟨[], (List.append_nil _).symm, nofun, rfl⟩
  have hset := triple_initializeFloppyDisk_setUp fuel dmaBuffer s hstart () hinit
  have hrun := Machine.run_related (R := Preserves (Reading s.log d dmaBuffer))
    (fun s (p : Byte × Byte) => keeps_reading_readCylinder fuel p.1 p.2 s)
    (initializeFloppyDisk fuel dmaBuffer s).2 calls hset
  rw [← step_setRead dmaBuffer d.channel]
  rcases hrun with ⟨l, hlog, hread, -⟩ | ⟨l, hlog, hthrough, -⟩
  · exact ⟨l, hlog, through_of_not_readsData hread⟩
  · exact ⟨l, hlog, hthrough⟩

end Driver

def maskedHardware : Hardware where
  flipFlop _ := false
  startAddress _ := 0
  count _ := 0
  page _ := 0
  masked _ := true
  mode _ := 0

theorem readData_through_sample :
    (initializeFloppyDisk 2 0x10000 spinningState).1 = .ok () ∧
      ∃ l, (Machine.run (fun s p => readCylinder 2 p.1 p.2 s)
          (initializeFloppyDisk 2 0x10000 spinningState).2 [(0, 2), (1, 5)]).2.log =
            spinningState.log ++ l ∧
        Through maskedHardware (Function.update maskedHardware.channel 2 (readChannel 0x10000))
          l := by
  have hinit : (initializeFloppyDisk 2 0x10000 spinningState).1 = .ok () := by decide +kernel
  exact ⟨hinit, readData_through 2 0x10000 spinningState hinit maskedHardware [(0, 2), (1, 5)]⟩

end KessokuOS.Floppy
