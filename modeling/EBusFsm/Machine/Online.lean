import EBusFsm.Machine.Completion

/-!
# What `online` says

`m_online` is set at the end of `openDevice` and cleared in `idleSystem` only, while the catch clauses of
`run` move the machine between `OpenDevice` and `MonitorBus`. `accurate` says that it tells whether the
device is open and the machine operates it, in the runs in which no device error meets an operational state
and no warning meets `openDevice`: the first leaves `m_online` set with the device closed, the second leads
to `MonitorBus` with `m_online` not set.
-/

namespace EBusFsm

open Prog

/-! ### The property -/

/-- The states in which the machine works on the bus. -/
def State.operational : State → Bool
  | .idleSystem | .openDevice => false
  | _ => true

theorem State.eq_of_not_operational {state : State} (h : state.operational = false) :
    state = .idleSystem ∨ state = .openDevice := by
  cases state <;> simp [operational] at h ⊢

/-- The thread is at the state, before its handler or behind the handler that chose it. -/
def Control.At (control : Control) (state : State) : Prop :=
  control = .loop state ∨ control = .check state

/-- The device is open and the machine operates it. -/
def Operating (impl : EbusImpl) (state : State) : Prop :=
  impl.deviceOpen = true ∧ state.operational = true

/-- The call of `transmit` failed because the machine is offline. -/
def Refused (s s' : System) (message : List Byte) : Prop :=
  ∃ response, s'.returned = ⟨0, message, EBUS_ERR_OFFLINE, response⟩ :: s.returned

/-- `online` is accurate, and a call whose telegram and address are valid is refused accordingly, also while
`idleSystem` waits. The state `IdleSystem` is excepted, which `close` chose before `idleSystem` has run. -/
structure Accurate (s : System) : Prop where
  online : ∀ state, s.control.At state → state ≠ .idleSystem →
    (s.impl.online = true ↔ Operating s.impl state)
  refused : ∀ state message tel seq s', s.control.At state → state ≠ .idleSystem →
    ({} : Telegram).createMasterFrom s.impl.address message = .ok (tel, seq) →
    tel.masterState = SEQ_OK → isMaster s.impl.address = true → s.step (.transmit message) = some s' →
    (Refused s s' message ↔ ¬ Operating s.impl state)
  waiting : s.control = .waiting → s.impl.online = false ∧ s.impl.deviceOpen = false
  waited : ∀ message tel seq s', s.control = .waiting →
    ({} : Telegram).createMasterFrom s.impl.address message = .ok (tel, seq) →
    tel.masterState = SEQ_OK → isMaster s.impl.address = true → s.step (.transmit message) = some s' →
    Refused s s' message

/-! ### The condition -/

/-- No warning meets `openDevice`, and no error an operational state. -/
def Steady (s : System) (a : Action) : Prop :=
  ∀ env state, a = .thread env → s.control = .loop state →
    (state = .openDevice → env.Timely) ∧ (state.operational = true → env.Faultless)

/-! ### The invariant -/

/-- `m_online` and the device at a state. -/
def Switched (impl : EbusImpl) (state : State) : Prop :=
  state ≠ .idleSystem →
    impl.online = state.operational ∧ impl.deviceOpen = state.operational

def Control.Switched (impl : EbusImpl) : Control → Prop
  | .loop state => EBusFsm.Switched impl state
  | .check state => EBusFsm.Switched impl state
  | .waiting => impl.online = false ∧ impl.deviceOpen = false
  | _ => True

section Round

variable {impl impl' : EbusImpl} {env : Env} {state : State} {result : Except Stop State}
  {evs : List Event}

theorem Handled.switched (h : Handled impl env state result impl' evs) (hs : Switched impl state)
    (htimely : state = .openDevice → env.Timely) (hfaultless : state.operational = true → env.Faultless) :
    (Control.after result).Switched impl' := by
  cases h with
  | idle hresult =>
    rcases hresult with ⟨-, rfl⟩ | ⟨-, rfl⟩
    · exact fun _ => ⟨rfl, rfl⟩
    · exact ⟨rfl, rfl⟩
  | opened => exact fun _ => ⟨rfl, rfl⟩
  | unopened => exact fun _ => ⟨(hs nofun).1, rfl⟩
  | @device state e evs w h he _ _ hne =>
    have honline : w.impl.online = state.operational := (shell_online h.shell).trans (hs hne).1
    rcases he with rfl | rfl
    · cases hop : state.operational with
      | false =>
        have hopen : state = .openDevice := (State.eq_of_not_operational hop).resolve_left hne
        exact absurd (htimely hopen) (h.warned rfl)
      | true =>
        rw [hop] at honline
        exact fun _ => ⟨honline, h.opened rfl ((hs hne).2.trans hop)⟩
    · cases hop : state.operational with
      | false =>
        rw [hop] at honline
        exact fun _ => ⟨honline, rfl⟩
      | true => exact absurd (hfaultless hop) (h.failed rfl)
  | synced => split_ifs <;> exact fun _ => hs nofun
  | acked => split_ifs <;> exact fun _ => hs nofun
  | oversizeAlone | misread | hung => trivial
  | _ => exact fun _ => hs nofun

end Round

theorem Control.Switched.setting {impl impl' : EbusImpl} {control : Control}
    (honline : impl'.online = impl.online) (hopen : impl'.deviceOpen = impl.deviceOpen)
    (h : control.Switched impl) : control.Switched impl' := by
  cases control <;> simp only [Control.Switched, EBusFsm.Switched, honline, hopen] at h ⊢ <;> exact h

theorem switched_step {address : Byte} {s s' : System} {a : Action} (hsound : Sound address s)
    (h : s.control.Switched s.impl) (hguard : Steady s a) (hstep : s.step a = some s') :
    s'.control.Switched s'.impl := by
  cases stepped hsound.control hstep with
  | setting => exact h.setting rfl rfl
  | enqueued => exact h.setting rfl rfl
  | failed | called | awoken => exact h
  | stopped => trivial
  | @thread state env _ _ _ hstate hh =>
    rw [hstate] at h
    obtain ⟨htimely, hfaultless⟩ := hguard env state rfl hstate
    exact hh.switched h htimely hfaultless
  | @check state hstate =>
    rw [hstate] at h
    show EBusFsm.Switched s.impl (if s.impl.close then .idleSystem else state)
    split_ifs
    · exact fun hne => absurd rfl hne
    · exact h
  | wake hwait =>
    rw [hwait] at h
    exact fun _ => h

/-- What `transmit` does once the telegram and the own address are valid. -/
theorem refused_iff {s s' : System} {message : List Byte} {tel : Telegram} {seq : Sequence}
    (hcreate : ({} : Telegram).createMasterFrom s.impl.address message = .ok (tel, seq))
    (hstate : tel.masterState = SEQ_OK) (hmaster : isMaster s.impl.address = true)
    (hstep : s.step (.transmit message) = some s') : Refused s s' message ↔ s.impl.online = false := by
  simp only [System.step, System.callTransmit, hcreate, hstate, hmaster, not_true_eq_false, if_false, ne_eq,
    Bool.not_true, Bool.false_eq_true] at hstep
  rcases honline : s.impl.online with _ | _
  · rw [honline] at hstep
    cases hstep
    exact iff_of_true ⟨_, rfl⟩ rfl
  · rw [honline] at hstep
    cases hstep
    refine iff_of_false ?_ (by simp)
    rintro ⟨response, h⟩
    exact absurd h.symm (List.cons_ne_self _ _)

theorem accurate_of_switched {s : System} (h : s.control.Switched s.impl) : Accurate s := by
  have honline : ∀ state, s.control.At state → state ≠ .idleSystem →
      (s.impl.online = true ↔ Operating s.impl state) := by
    intro state hat hne
    have hs : Switched s.impl state := by
      rcases hat with hat | hat
      · rw [hat] at h
        exact h
      · rw [hat] at h
        exact h
    obtain ⟨honline, hopen⟩ := hs hne
    unfold Operating
    rw [honline, hopen, and_self]
  have hwaiting : s.control = .waiting → s.impl.online = false ∧ s.impl.deviceOpen = false := by
    intro hwait
    rw [hwait] at h
    exact h
  refine ⟨honline, fun state message tel seq s' hat hne hcreate hstate hmaster hstep => ?_, hwaiting,
    fun message tel seq s' hwait hcreate hstate hmaster hstep => ?_⟩
  · rw [refused_iff hcreate hstate hmaster hstep, ← honline state hat hne, Bool.not_eq_true]
  · exact (refused_iff hcreate hstate hmaster hstep).2 (hwaiting hwait).1

/-- **`online` tells whether the device is open and the machine operates it**, in every run in which no
warning meets `openDevice` and no device error an operational state. -/
theorem accurate {address : Byte} {as : List Action} {s : System}
    (hrun : Run System.step Steady (System.init address) as s) : Accurate s := by
  have hinv := hrun.invariant (I := fun s => Sound address s ∧ s.control.Switched s.impl)
    (fun _ _ _ h hguard hstep => ⟨h.1.step hstep, switched_step h.1 h.2 hguard hstep⟩)
    ⟨sound_init address, fun _ => ⟨rfl, rfl⟩⟩
  exact accurate_of_switched hinv.2

theorem steady_of_clean (s : System) (a : Action) (h : a.clean = true) : Steady s a := by
  rintro env state rfl -
  have hclean : env.Clean := Env.clean_spec h
  exact ⟨fun _ => hclean.timely, fun _ => hclean.faultless⟩

/-- The device is opened. -/
theorem accurate_sample :
    ∃ s, execute System.step (fun _ a => a.clean) (System.init 0xff) (handlers [[0xaa]]) = some s ∧
      s.impl.online = true ∧ Accurate s := by
  have hrun : (execute System.step (fun _ a => a.clean) (System.init 0xff) (handlers [[0xaa]])).map
      (fun s => s.impl.online) = some true := by decide +kernel
  obtain ⟨s, hs, honline⟩ := Option.map_eq_some_iff.1 hrun
  exact ⟨s, hs, honline, accurate (run_of_execute steady_of_clean hs)⟩

/-- An error meets `monitorBus`: the device is closed, and the machine still says that it is online. -/
theorem inaccurate_sample :
    ¬ ∀ (address : Byte) (as : List Action) (s : System),
      Run System.step (fun _ _ => True) (System.init address) as s → Accurate s := by
  intro h
  have hrun : (execute System.step (fun _ _ => true) (System.init 0xff)
      (handlers [[0xaa]] ++ [.thread { reads := [.readError] }, .check])).map
        (fun s => (s.control, s.impl.online, s.impl.deviceOpen)) =
      some (.loop .openDevice, true, false) := by decide +kernel
  obtain ⟨s, hs, heq⟩ := Option.map_eq_some_iff.1 hrun
  obtain ⟨hstate, honline, hclosed⟩ :
      s.control = .loop .openDevice ∧ s.impl.online = true ∧ s.impl.deviceOpen = false := by
    simpa using heq
  have haccurate := h 0xff _ s (run_of_execute (fun _ _ _ => trivial) hs)
  obtain ⟨hopen, -⟩ := (haccurate.online .openDevice (.inl hstate) nofun).1 honline
  rw [hclosed] at hopen
  exact nomatch hopen

end EBusFsm
