import EBusFsm.Machine.Online

/-!
# Attempts to open the device

`openDevice` counts its attempts and gives up when there were more than `m_open_counter_max`. But
`Device::open` throws when it fails, so the count is never reached, and `handleDeviceError` sets it to zero.
`attempts_unbounded` says that no bound holds: whatever the maximum, a device that cannot be opened is tried
again for ever.
-/

namespace EBusFsm

open Prog

/-! ### The property -/

/-- The device cannot be opened; nobody calls `close`, ends the thread or sets another maximum. -/
def Refusing (_ : System) (a : Action) : Prop :=
  (∀ env, a = .thread env → env.opens = false) ∧ a ≠ .closeCall ∧ a ≠ .halt ∧
    ∀ value, a ≠ .setOpenCounterMax value

/-- The entry of a history is an attempt to open the device. -/
def attempt : System × Action → Bool
  | (s, .thread _) => s.control == .loop .openDevice
  | _ => false

/-- The machine is in `IdleSystem` after at most `m_open_counter_max + 1` failed attempts. -/
def Bounded (s : System) : Prop :=
  ∀ as s', Run System.step Refusing s as s' →
    s.impl.openCounterMax + 1 < ((visited System.step s as).countP attempt : Int) →
    (∃ e ∈ visited System.step s as, e.1.control.At .idleSystem) ∨ s'.control.At .idleSystem

/-! ### Failed attempts -/

/-- The machine is about to open the device. -/
structure Opening (s : System) : Prop where
  control : s.control.At .openDevice
  running : s.impl.running = true
  closed : s.impl.deviceOpen = false
  close : s.impl.close = false

theorem wp_openDevice_refused (Q : State → World → Prop) (E : Stop → World → Prop) (w : World)
    (hclosed : w.impl.deviceOpen = false) (hopens : w.env.opens = false) :
    wp openDevice Q E w ↔ E .error w := by
  simp only [openDevice, deviceOpen, wp_bind, wp_getImpl, hclosed, Bool.not_false, if_true, wp_get, hopens,
    wp_throw]

/-- An attempt that fails leads back to `openDevice`. -/
theorem exec_refused {impl : EbusImpl} {env : Env} (hclosed : impl.deviceOpen = false)
    (hopens : env.opens = false) :
    ∃ w, exec (runState .openDevice) { impl, env } = (.ok .openDevice, w) ∧
      w.impl = failedImpl impl .error := by
  have hwp : wp (runState .openDevice) (fun next w => next = .openDevice ∧ w.impl = failedImpl impl .error)
      (fun _ _ => False) { impl, env } := by
    unfold runState handler
    rw [wp_tryCatch, wp_openDevice_refused _ _ _ hclosed hopens, wp_handleDeviceError]
    exact ⟨rfl, rfl⟩
  obtain ⟨next, w, hexec, rfl, himpl⟩ := exists_of_wp hwp
  exact ⟨w, hexec, himpl⟩

theorem Opening.refused {s : System} (h : Opening s) (hstate : s.control = .loop .openDevice) {env : Env}
    (hopens : env.opens = false) :
    ∃ s', s.step (.thread env) = some s' ∧ Opening s' ∧ s'.control = .check .openDevice ∧
      s'.impl.openCounterMax = s.impl.openCounterMax := by
  obtain ⟨w, hexec, himpl⟩ := exec_refused h.closed hopens
  refine ⟨s.runThread .openDevice env, ?_, ?_⟩
  · simp only [System.step, hstate]
  · simp only [System.runThread, h.running, Bool.not_true, Bool.false_eq_true, if_false, hexec]
    refine ⟨⟨.inr rfl, ?_, ?_, ?_⟩, rfl, ?_⟩ <;> simp only [himpl]
    · exact h.running
    · rfl
    · exact h.close
    · rfl

/-- Nothing that happens while the attempts fail leads elsewhere. -/
theorem Opening.step {s s' : System} {a : Action} (h : Opening s) (hguard : Refusing s a)
    (hstep : s.step a = some s') : Opening s' := by
  obtain ⟨hopens, hcall, hhalt, -⟩ := hguard
  have hready : s.control.Ready s.impl := by
    rcases h.control with hcontrol | hcontrol <;>
      · rw [hcontrol]
        trivial
  cases stepped hready hstep with
  | setting _ _ close _ _ _ _ _ hrunning hclose =>
    rw [decide_eq_false hcall, Bool.or_false] at hclose
    exact ⟨h.control, (hrunning.resolve_right hhalt).trans h.running, h.closed, hclose.trans h.close⟩
  | failed | called | enqueued | awoken => exact ⟨h.control, h.running, h.closed, h.close⟩
  | stopped _ hstopped =>
    rw [h.running] at hstopped
    exact nomatch hstopped
  | @thread state env _ _ _ hloop =>
    have hstate : s.control = .loop .openDevice := by
      refine h.control.resolve_right fun hcheck => ?_
      exact nomatch hloop.symm.trans hcheck
    obtain ⟨s'', hstep', hopening, -⟩ := h.refused hstate (hopens env rfl)
    have heq := Option.some_inj.1 (hstep'.symm.trans hstep)
    rw [heq] at hopening
    exact hopening
  | @check state hcheck =>
    have hstate : state = .openDevice := by
      rcases h.control with hcontrol | hcontrol
      · exact nomatch hcheck.symm.trans hcontrol
      · simpa using hcheck.symm.trans hcontrol
    refine ⟨.inl ?_, h.running, h.closed, h.close⟩
    show Control.loop (if s.impl.close then .idleSystem else state) = _
    rw [h.close, hstate]
    rfl
  | wake hwait =>
    rcases h.control with hcontrol | hcontrol <;> exact nomatch hwait.symm.trans hcontrol

theorem Opening.not_idle {s : System} (h : Opening s) : ¬ s.control.At .idleSystem := by
  intro hidle
  rcases h.control with hcontrol | hcontrol <;> rcases hidle with hidle | hidle <;>
    exact nomatch hcontrol.symm.trans hidle

/-- No run of failed attempts leads to `IdleSystem`. -/
theorem Opening.never_idle {s s' : System} {as : List Action} (h : Opening s)
    (hrun : Run System.step Refusing s as s') :
    (∀ e ∈ visited System.step s as, ¬ e.1.control.At .idleSystem) ∧ ¬ s'.control.At .idleSystem := by
  have hinv := hrun.history (I := fun before s =>
      (∀ e ∈ before, ¬ e.1.control.At .idleSystem) ∧ Opening s)
    (fun before s a s' hinv hguard hstep => by
      refine ⟨fun e he => ?_, hinv.2.step hguard hstep⟩
      rcases List.mem_append.1 he with he | he
      · exact hinv.1 e he
      · rw [List.mem_singleton.1 he]
        exact hinv.2.not_idle)
    ⟨fun _ he => absurd he List.not_mem_nil, h⟩
  exact ⟨hinv.1, hinv.2.not_idle⟩

/-- There are runs of any number of failed attempts. -/
theorem Opening.attempts (n : Nat) {s : System} (h : Opening s) (hstate : s.control = .loop .openDevice) :
    ∃ as s', Run System.step Refusing s as s' ∧ (visited System.step s as).countP attempt = n := by
  induction n generalizing s with
  | zero => exact ⟨[], s, .nil s, rfl⟩
  | succ n ih =>
    let env : Env := { opens := false }
    obtain ⟨s₁, hstep₁, hopening₁, hcheck, -⟩ := h.refused hstate (show env.opens = false from rfl)
    have hguard : Refusing s (.thread env) := by
      refine ⟨?_, nofun, nofun, nofun⟩
      rintro env' ⟨⟩
      rfl
    have hguard₁ : Refusing s₁ .check := ⟨nofun, nofun, nofun, nofun⟩
    obtain ⟨s₂, hstep₂, hstate₂⟩ : ∃ s₂, s₁.step .check = some s₂ ∧ s₂.control = .loop .openDevice := by
      simp only [System.step, hcheck, hopening₁.close]
      exact ⟨_, rfl, rfl⟩
    obtain ⟨as, s', hrun, hcount⟩ := ih (hopening₁.step hguard₁ hstep₂) hstate₂
    refine ⟨.thread env :: .check :: as, s', .cons hguard hstep₁ (.cons hguard₁ hstep₂ hrun), ?_⟩
    rw [Run.visited_cons hstep₁, Run.visited_cons hstep₂, List.countP_cons, List.countP_cons, hcount]
    simp [attempt, hstate]

/-- **The attempts to open the device are not bounded**, from any state in which the machine is about to open
it and for any maximum. -/
theorem attempts_unbounded {s : System} (hstate : s.control = .loop .openDevice)
    (hrunning : s.impl.running = true) (hclosed : s.impl.deviceOpen = false)
    (hclose : s.impl.close = false) : ¬ Bounded s := by
  intro hbounded
  have hopening : Opening s := ⟨.inl hstate, hrunning, hclosed, hclose⟩
  obtain ⟨as, s', hrun, hcount⟩ := hopening.attempts (s.impl.openCounterMax + 2).toNat hstate
  have hmany : s.impl.openCounterMax + 1 < ((visited System.step s as).countP attempt : Int) := by
    rw [hcount]
    omega
  obtain ⟨hbefore, hafter⟩ := hopening.never_idle hrun
  rcases hbounded as s' hrun hmany with ⟨e, he, hidle⟩ | hidle
  · exact hbefore e he hidle
  · exact hafter hidle

theorem attempts_unbounded_sample : ¬ Bounded (System.init 0xff) :=
  attempts_unbounded rfl rfl rfl rfl

/-- The test of `Refusing`. -/
def refusing (_ : System) : Action → Bool
  | .thread env => !env.opens
  | .check => true
  | _ => false

theorem refusing_of_test (s : System) (a : Action) (h : refusing s a = true) : Refusing s a := by
  refine ⟨?_, ?_, ?_, fun value => ?_⟩
  · rintro env rfl
    simpa [refusing] using h
  all_goals
    rintro rfl
    exact nomatch h

/-- With the maximum zero, the device is tried twice. -/
theorem bounded_sample : ¬ ∀ (address : Byte) (value : Int), 0 ≤ value →
    Bounded { System.init address with impl := { initImpl address with openCounterMax := value } } := by
  intro h
  let as : List Action := [.thread { opens := false }, .check, .thread { opens := false }, .check]
  let s₀ : System := { System.init 0xff with impl := { initImpl 0xff with openCounterMax := 0 } }
  obtain ⟨s, hs, hcontrol⟩ := Option.map_eq_some_iff.1
    (show (execute System.step refusing s₀ as).map System.control = some (.loop .openDevice) by
      decide +kernel)
  rcases h 0xff 0 le_rfl as s (run_of_execute refusing_of_test hs) (by decide +kernel) with
    ⟨e, he, hidle⟩ | hidle
  · have hnever : (visited System.step s₀ as).all (fun e =>
        e.1.control != .loop .idleSystem && e.1.control != .check .idleSystem) = true := by decide +kernel
    have hno := List.all_eq_true.1 hnever e he
    rw [Bool.and_eq_true, bne_iff_ne, bne_iff_ne] at hno
    exact hidle.elim hno.1 hno.2
  · rcases hidle with hidle | hidle <;> exact nomatch hcontrol.symm.trans hidle

end EBusFsm
