import KessokuOS.Bootloader.MemoryMap

/-!
# The end of the memory map

The BIOS says that an entry of the memory map was the last one by returning `0`
in `ebx`, or, one request later, by setting the carry. The loop of stage 1 tests
both, but the comparison of `ebx`, which comes first, clears the carry:

* a round is left exactly with `ebx = 0` (`loadSystemMemoryInfoRound_exit`),
  whatever the carry;
* hence the loading ends with the last reply exactly when this one returns `0` in
  `ebx` (`stopsAfter_iff`); of a reply by the carry nothing is noticed.
-/

namespace KessokuOS.Bootloader

open X86 X86.Cpu

variable {replies init more : List MapReply} {last r : MapReply} {s t : MapMachine}

/-- What a request does: the next reply is in `ebx`. -/
theorem int15_eq_some (h : int15 replies s = some t) :
    ∃ r, replies[s.log.length]? = some r ∧ t.get .ebx = r.continuation ∧
      t.log.length = s.log.length + 1 := by
  rw [int15] at h
  split_ifs at h
  obtain ⟨r, hr, rfl⟩ := Option.map_eq_some_iff.1 h
  exact ⟨r, hr, rfl, List.length_append⟩

/-- The value in `ebx` is that of the last reply. -/
def EbxReplied (replies : List MapReply) (s : MapMachine) : Prop :=
  ∃ n r, s.log.length = n + 1 ∧ replies[n]? = some r ∧ s.get .ebx = r.continuation

theorem ebxReplied_int15 (h : int15 replies s = some t) : EbxReplied replies t := by
  obtain ⟨r, hr, hebx, hlog⟩ := int15_eq_some h
  exact ⟨_, r, hlog, hr, hebx⟩

/-- What a round does: it goes on behind a request, or is left with `ebx = 0`. The
    comparison clears the carry, hence that of the last request does not count. -/
theorem loadSystemMemoryInfoRound_cases {o : MapMachine ⊕ MapMachine}
    (h : loadSystemMemoryInfoRound replies s = some o) :
    (∃ s' t, int15 replies s' = some t ∧ o = .inl t) ∨
      s.get .ebx = 0 ∧ o = .inr (s.cmp .ebx 0) := by
  rw [loadSystemMemoryInfoRound] at h
  by_cases hz : s.get .ebx = 0
  · have hzf : (s.cmp .ebx 0).zf = true := decide_eq_true hz
    simp only [hzf, true_or, if_true, Option.some.injEq] at h
    exact .inr ⟨hz, h.symm⟩
  · have hzf : (s.cmp .ebx 0).zf = false := decide_eq_false hz
    have hcf : (s.cmp .ebx 0).cf = false := by simp
    simp only [hzf, hcf, Bool.false_eq_true, or_self, if_false, Option.bind_eq_bind,
      Option.bind_eq_some_iff] at h
    obtain ⟨t, ht, ho⟩ := h
    exact .inl ⟨_, t, ht, (Option.some.inj ho).symm⟩

/-- The loop is left with the last reply in `ebx`, which is `0`. -/
theorem loop_loadSystemMemoryInfo_post {fuel : ℕ} (hs : EbxReplied replies s)
    (h : loop (loadSystemMemoryInfoRound replies) fuel s = some t) :
    EbxReplied replies t ∧ t.get .ebx = 0 := by
  refine loop_post (EbxReplied replies) (fun t => EbxReplied replies t ∧ t.get .ebx = 0)
    (fun s s' _ hround => ?_) (fun s t hs hround => ?_) hs h
  · obtain ⟨s₁, t, ht, ho⟩ | ⟨-, ho⟩ := loadSystemMemoryInfoRound_cases hround
    · rw [Sum.inl.inj ho]
      exact ebxReplied_int15 ht
    · exact absurd ho Sum.inl_ne_inr
  · obtain ⟨_, _, -, ho⟩ | ⟨hz, ho⟩ := loadSystemMemoryInfoRound_cases hround
    · exact absurd ho Sum.inr_ne_inl
    · rw [Sum.inr.inj ho, get_cmp]
      exact ⟨hs, hz⟩

/-- If the loading ends, the last reply has returned `0` in `ebx`. -/
theorem continuation_of_loadSystemMemoryInfo {fuel buffer n : ℕ}
    (h : loadSystemMemoryInfo replies fuel buffer s = some (.done t)) (hn : t.log.length = n + 1)
    (hr : replies[n]? = some r) : r.continuation = 0 := by
  rw [loadSystemMemoryInfo] at h
  simp only [Option.bind_eq_bind, Option.bind_eq_some_iff] at h
  obtain ⟨s₁, hs₁, h⟩ := h
  split_ifs at h with hcf
  · obtain ⟨s₂, hs₂, h⟩ := Option.bind_eq_some_iff.1 h
    obtain rfl := Outcome.done.inj (Option.some.inj h)
    obtain ⟨⟨k, r', hk, hr', hebx⟩, hz⟩ :=
      loop_loadSystemMemoryInfo_post (ebxReplied_int15 hs₁) hs₂
    rw [log_addNullEntry, hk, Nat.add_right_cancel_iff] at hn
    rw [hn, hr] at hr'
    rw [Option.some.inj hr', ← hebx, hz]
  · exact absurd (Option.some.inj h) (by simp)

/-- The loading ends with the request that `last` is the reply to, and leaves the
    entries before it that are not empty one behind the other. Behind `last`, the BIOS
    would go on with `more`. -/
def StopsAfter (init : List MapReply) (last : MapReply) (more : List MapReply) (s : MapMachine) :
    Prop :=
  ∃ fuel t, loadSystemMemoryInfo (init ++ last :: more) fuel memoryInfoBottom s = some (.done t) ∧
    t.log.length = init.length + 1 ∧ EntriesAt t.mem memoryInfoBottom (kept init)

/-- The loading ends with the last reply exactly when this one is signalled by
    `ebx = 0`. As in the source, the entries are assumed to fit in the buffer. -/
theorem stopsAfter_iff (hes : s.es = 0) (hlog : s.log = [])
    (hfirst : ∀ r ∈ (init ++ [last]).head?, r.ok = true) (hinit : ∀ r ∈ init, r.continuation ≠ 0)
    (hfit : memoryInfoBottom + 24 * ((kept init).length + 1) ≤ memoryInfoTop) :
    StopsAfter init last more s ↔ last.continuation = 0 := by
  constructor
  · rintro ⟨fuel, t, ht, htlog, -⟩
    exact continuation_of_loadSystemMemoryInfo ht htlog (by simp)
  · intro hlast
    obtain ⟨t, ht, htlog, -, -, hkept, -⟩ := loadSystemMemoryInfo_spec init last more hes hlog
      hfirst hinit hlast hfit (Nat.lt_succ_self _)
    exact ⟨_, t, ht, htlog, hkept⟩

theorem stopsAfter_iff_sample :
    StopsAfter [sampleReply 0 0x9fc00 1 1] (sampleReply 0x100000 0x7ee0000 1 0)
        [sampleReply 0 0 0 1] sampleMapMachine ↔
      (sampleReply 0x100000 0x7ee0000 1 0).continuation = 0 :=
  stopsAfter_iff rfl rfl (by decide) (by decide) (by decide +kernel)

/-- A reply by the carry, with the bytes of the buffer of `sampleMapMachine` and
    `ebx` as before. -/
def sampleCarry : MapReply := ⟨false, fun _ => 0xff, Function.update (fun _ => 0) .b 1, false⟩

/-- Behind the reply by the carry there is another request, after which the loading
    ends only because of what the BIOS then returns in `ebx`. -/
theorem not_stopsAfter_sample :
    ¬StopsAfter [sampleReply 0 0x9fc00 1 1] sampleCarry [sampleReply 0 0x9fc00 1 0]
        sampleMapMachine ∧
      ∃ fuel t, loadSystemMemoryInfo
          ([sampleReply 0 0x9fc00 1 1] ++ sampleCarry :: [sampleReply 0 0x9fc00 1 0]) fuel
          memoryInfoBottom sampleMapMachine = some (.done t) ∧ t.log.length = 3 := by
  refine ⟨?_, ?_⟩
  · rintro ⟨fuel, t, ht, htlog, -⟩
    have hzero : sampleCarry.continuation = 0 := continuation_of_loadSystemMemoryInfo ht htlog rfl
    exact absurd hzero (by decide)
  · obtain ⟨t, ht, htlog, -⟩ := loadSystemMemoryInfo_spec
      [sampleReply 0 0x9fc00 1 1, sampleCarry] (sampleReply 0 0x9fc00 1 0) []
      (s := sampleMapMachine) rfl rfl (by decide) (by decide) (by decide) (by decide +kernel)
      (Nat.lt_succ_self _)
    exact ⟨_, t, ht, htlog⟩

end KessokuOS.Bootloader
