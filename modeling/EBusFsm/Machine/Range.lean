import EBusFsm.Machine.Safety

/-!
# The range of the lock counter

`monitorBus` counts down unless the counter is zero, and every other place sets the counter: to two, to one,
or to the maximum. So a maximum that is not negative keeps it between zero and the greater of two and the
maximum (`Ranged`), in every state of every run (`ranged_of_run`).

`Handled` does not say what the counter is when a handler stops in the middle, so this is proved on the
programs of the handlers, piece by piece, with the rules for `Keeps`.
-/

namespace EBusFsm

open Prog

/-- The lock counter is between zero and the maximum `m`, or two if this is more. -/
structure Ranged (m : Int) (impl : EbusImpl) : Prop where
  limit : impl.lockCounterMax = m
  low : 0 ≤ impl.lockCounter
  high : impl.lockCounter ≤ max 2 m

/-- The program leaves the lock counter in its range, however it ends. -/
def KeepsRange {α : Type} (m : Int) (x : EbusM α) : Prop := Keeps (fun w => Ranged m w.impl) x

section Range

variable {m : Int} {α : Type}

theorem Ranged.frame {impl impl' : EbusImpl} (h : Ranged m impl)
    (hlimit : impl'.lockCounterMax = impl.lockCounterMax) (hlock : impl'.lockCounter = impl.lockCounter) :
    Ranged m impl' := by
  obtain ⟨hmax, hlow, hhigh⟩ := h
  rw [← hlimit] at hmax
  rw [← hlock] at hlow hhigh
  exact ⟨hmax, hlow, hhigh⟩

theorem Ranged.reset (hm : 0 ≤ m) {impl : EbusImpl} (h : Ranged m impl) : Ranged m (resetImpl impl) := by
  obtain ⟨rfl, -, -⟩ := h
  exact ⟨rfl, hm, le_max_right _ _⟩

theorem keeps_getImpl : KeepsRange m getImpl := .bind .get fun _ => .pure _

theorem keeps_modifyImpl {f : EbusImpl → EbusImpl} (h : ∀ impl, Ranged m impl → Ranged m (f impl)) :
    KeepsRange m (modifyImpl f) := .modify fun w => h w.impl

theorem keeps_emit (e : Event) : KeepsRange m (emit e) := .modify fun _ hw => hw

theorem keeps_liftRange (x : Except OutOfRange α) : KeepsRange m (liftRange x) := by
  cases x with
  | ok a => exact .pure a
  | error => exact .throw _

theorem keeps_deref (message : Option Message) : KeepsRange m (deref message) := by
  cases message with
  | none => exact .throw _
  | some message => exact .pure message

theorem keeps_deviceClose : KeepsRange m deviceClose :=
  keeps_modifyImpl fun _ h => h.frame rfl rfl

/-- The device cannot be used any more. -/
theorem keeps_invalid : KeepsRange m (do deviceClose; throw .error : EbusM α) :=
  .bind keeps_deviceClose fun _ => .throw _

theorem keeps_deviceSend (byte : Byte) : KeepsRange m (deviceSend byte) := by
  intro w hw
  simp only [deviceSend, wp_bind, wp_get, wp_set]
  rcases w.env.sends.headD .ok with _ | _ | _
  · exact hw
  · exact keeps_invalid (α := PUnit) _ hw
  · exact hw

theorem keeps_deviceRecv (sec nsec : Nat) : KeepsRange m (deviceRecv sec nsec) := by
  intro w hw
  simp only [deviceRecv, wp_bind, wp_get]
  rcases w.env.reads with _ | ⟨_ | _ | _ | _ | _ | _, reads⟩
  · exact hw
  · exact hw
  · exact keeps_invalid (α := Byte) _ hw
  · exact Keeps.ite (.throw _) (.throw _) _ hw
  · exact Keeps.ite (.throw _) (.throw _) _ hw
  · exact hw
  · exact hw

theorem keeps_read (sec nsec : Nat) : KeepsRange m (read sec nsec) :=
  .bind (keeps_deviceRecv sec nsec) fun byte => .bind (keeps_emit (.got byte)) fun _ => .pure byte

theorem keeps_writeRead (byte : Byte) (sec nsec : Nat) : KeepsRange m (writeRead byte sec nsec) :=
  .bind (keeps_deviceSend byte) fun _ => .bind (keeps_read sec nsec) fun _ => .pure _

theorem keeps_setSequence (seq : Sequence) : KeepsRange m (setSequence seq) :=
  keeps_modifyImpl fun _ h => h.frame rfl rfl

theorem keeps_setActive (message : Message) : KeepsRange m (setActive message) :=
  keeps_modifyImpl fun _ h => h.frame rfl rfl

theorem keeps_setActiveState (state : Int) : KeepsRange m (setActiveState state) :=
  .bind keeps_getImpl fun _ => .bind (keeps_deref _) fun _ => keeps_setActive _

theorem keeps_process (message : List Byte) : KeepsRange m (process message) := by
  refine .bind keeps_getImpl fun impl => .ite ?_ (.pure _)
  exact .bind (keeps_emit _) fun _ => .bind .get fun _ => .bind .get fun _ => .pure _

theorem keeps_flush : KeepsRange m flush := by
  have hflush : ∀ fuel, KeepsRange m (flushDevice fuel) := by
    intro fuel
    induction fuel with
    | zero => exact .throw _
    | succ fuel ih => exact .bind (keeps_read 1 0) fun _ => .ite ih (.pure _)
  exact .bind .get fun _ => hflush _

theorem keeps_deviceOpen : KeepsRange m deviceOpen := by
  have hopen : KeepsRange m (modifyImpl fun impl => { impl with deviceOpen := true }) :=
    keeps_modifyImpl fun _ h => h.frame rfl rfl
  refine .bind keeps_getImpl fun _ => .ite (.bind .get fun _ => .ite ?_ hopen) (.pure _)
  exact .bind (.throw _) fun _ => hopen

theorem keeps_receiveByte : KeepsRange m receiveByte :=
  .bind (keeps_read 1 0) fun byte => .bind keeps_getImpl fun _ => .bind (keeps_setSequence _) fun _ => .pure byte

theorem keeps_receiveCounted (bytes : Nat) : KeepsRange m (receiveCounted bytes) := by
  have hreceive : ∀ fuel bytes, KeepsRange m (receiveBytes fuel bytes) := by
    intro fuel
    induction fuel with
    | zero =>
      rintro (_ | bytes)
      · exact .pure _
      · exact .throw _
    | succ fuel ih =>
      rintro (_ | bytes)
      · exact .pure _
      · exact .bind keeps_receiveByte fun _ => .ite (ih _) (ih _)
  exact .bind .get fun _ => hreceive _ _

theorem keeps_receiveSlave (nn : Byte) : KeepsRange m (receiveSlave nn) := by
  have hreceive : ∀ fuel bytes seq, KeepsRange m (receivePart fuel bytes seq) := by
    intro fuel
    induction fuel with
    | zero =>
      rintro (_ | bytes) seq
      · exact .pure _
      · exact .throw _
    | succ fuel ih =>
      rintro (_ | bytes) seq
      · exact .pure _
      · exact .bind (keeps_read 1 0) fun _ => .ite (ih _ _) (ih _ _)
  exact .bind .get fun _ => hreceive _ _ _

theorem keeps_sendPart (part : List Byte) (crc : Byte) : KeepsRange m (sendPart part crc) :=
  .bind (.forM part fun _ => keeps_writeRead _ 0 0) fun _ => keeps_writeRead crc 0 0

theorem keeps_decodeSequence : KeepsRange m decodeSequence := by
  have hrest : KeepsRange m (do
      modifyImpl fun impl => { impl with
        lockCounter := if impl.sequence.size = 1 ∧ impl.lockCounter < 2 then 2 else impl.lockCounter }
      setSequence {}) := by
    refine .bind (keeps_modifyImpl fun impl h => ?_) fun _ => keeps_setSequence _
    obtain ⟨hlimit, hlow, hhigh⟩ := h
    refine ⟨hlimit, ?_, ?_⟩
    · dsimp only
      split_ifs <;> omega
    · dsimp only
      split_ifs <;> omega
  refine .bind keeps_getImpl fun _ => .bind (keeps_liftRange _) fun _ => .bind (keeps_setSequence _) fun _ => ?_
  exact .ite (.bind (keeps_emit _) fun _ => hrest) hrest

theorem keeps_checkMessage : KeepsRange m checkMessage := by
  refine .bind (keeps_modifyImpl fun impl h => ?_) fun _ => .bind keeps_getImpl fun _ => .ite (.pure _) (.pure _)
  split
  · exact h.frame rfl rfl
  · exact h

theorem keeps_handleSyn : KeepsRange m handleSyn := by
  have hcount : KeepsRange m countLock := by
    refine keeps_modifyImpl fun impl ⟨hlimit, hlow, hhigh⟩ => ⟨hlimit, ?_, ?_⟩
    · dsimp only
      split_ifs <;> omega
    · dsimp only
      split_ifs <;> omega
  refine .bind hcount fun _ => .bind keeps_getImpl fun _ => .ite ?_ keeps_checkMessage
  exact .bind keeps_decodeSequence fun _ => keeps_checkMessage

theorem keeps_monitorBus : KeepsRange m monitorBus := by
  refine .bind (keeps_read 1 0) fun byte => .ite keeps_handleSyn (.bind keeps_getImpl fun _ =>
    .bind (keeps_setSequence _) fun _ => .bind keeps_getImpl fun _ => .ite ?_ (.pure _))
  exact .bind (keeps_liftRange _) fun _ => .ite (.pure _) (.pure _)

theorem keeps_acknowledgeMessage : KeepsRange m acknowledgeMessage := by
  have hdeliver (tel : Telegram) : KeepsRange m (deliverMessage tel) := by
    refine .ite (.ite (.bind (keeps_emit _) fun _ => .pure _) (.pure _)) ?_
    exact .bind (keeps_setSequence _) fun _ => .pure _
  refine .bind keeps_getImpl fun _ => .bind (keeps_liftRange _) fun _ => .bind (keeps_setSequence _) fun _ =>
    .bind (keeps_liftRange _) fun _ => .ite ?_ (hdeliver _)
  exact .bind (keeps_writeRead _ 0 0) fun _ => hdeliver _

theorem keeps_processMessage : KeepsRange m processMessage := by
  have hdrop : KeepsRange m (do setSequence {}; return State.monitorBus) :=
    .bind (keeps_setSequence _) fun _ => .pure _
  refine .bind keeps_getImpl fun _ => .bind (keeps_liftRange _) fun _ => .bind (keeps_setSequence _) fun _ =>
    .bind (keeps_process _) fun _ => .ite (.ite (.bind (keeps_liftRange _) fun _ => .ite ?_ hdrop) hdrop) hdrop
  exact .bind (keeps_modifyImpl fun _ h => h.frame rfl rfl) fun _ => .pure _

theorem keeps_sendAttempt (retry : Nat) : KeepsRange m (sendAttempt retry) := by
  unfold sendAttempt
  refine .bind keeps_getImpl fun _ => .bind (keeps_deref _) fun _ => .bind (keeps_sendPart _ _) fun _ =>
    .ite (.pure _) (.bind (keeps_read 0 10000) fun _ => .bind (keeps_setActive _) fun _ => .ite ?_ (.ite ?_ ?_))
  · exact .bind (keeps_setActive _) fun _ => .pure _
  · exact .ite (.pure _) (.pure _)
  · exact .ite (.bind (keeps_setActive _) fun _ => .pure _) (.pure _)

theorem keeps_acknowledgeResponse (retry : Nat) (seq : Sequence) : KeepsRange m (acknowledgeResponse retry seq) := by
  unfold acknowledgeResponse
  refine .bind keeps_getImpl fun _ => .bind (keeps_deref _) fun _ => .bind (keeps_liftRange _) fun _ =>
    .bind (keeps_setActive _) fun _ => .bind (keeps_writeRead _ 0 0) fun _ => .bind (keeps_setActive _) fun _ =>
      .ite (.pure _) (.ite ?_ (.pure _))
  exact .bind (keeps_setActiveState _) fun _ => .pure _

/-- A loop of two rounds. -/
theorem keeps_retried {attempt : Nat → EbusM (Option State)} (h : ∀ retry, KeepsRange m (attempt retry)) :
    KeepsRange m (do
      match ← attempt 1 with
      | some state => return state
      | none =>
        match ← attempt 0 with
        | some state => return state
        | none => return .freeBus) := by
  refine .bind (h 1) fun result => ?_
  rcases result with _ | state
  · refine .bind (h 0) fun result => ?_
    rcases result with _ | state
    · exact .pure _
    · exact .pure _
  · exact .pure _

section Handlers

variable (hm : 0 ≤ m)

include hm

theorem keeps_reset : KeepsRange m reset := by
  intro w hw
  rw [wp_reset]
  exact hw.reset hm

theorem keeps_idleSystem : KeepsRange m idleSystem := by
  have hclose : KeepsRange m closeDevice :=
    .bind keeps_getImpl fun _ => .ite keeps_deviceClose (.pure _)
  refine .bind hclose fun _ => .bind (keeps_reset hm) fun _ => .bind ?_ fun _ => .bind keeps_getImpl fun _ => ?_
  · exact keeps_modifyImpl fun _ h => h.frame rfl rfl
  · exact .ite (.pure _) (.throw _)

theorem keeps_openDevice : KeepsRange m openDevice := by
  have hsynchronize : KeepsRange m synchronize := by
    refine .bind keeps_flush fun _ => .bind (keeps_reset hm) fun _ => .bind ?_ fun _ => .pure _
    exact keeps_modifyImpl fun _ h => h.frame rfl rfl
  refine .bind keeps_getImpl fun _ => .ite (.bind keeps_deviceOpen fun _ => .bind keeps_getImpl fun _ =>
    .ite (.bind ?_ fun _ => .bind keeps_getImpl fun _ => .ite (.pure _) (.pure _)) hsynchronize) hsynchronize
  exact keeps_modifyImpl fun _ h => h.frame rfl rfl

theorem keeps_receiveMessage : KeepsRange m receiveMessage := by
  refine .bind keeps_receiveByte fun _ => .bind keeps_receiveByte fun _ => .bind keeps_receiveByte fun _ =>
    .bind keeps_getImpl fun _ => .bind (keeps_liftRange _) fun _ => .ite ?_ ?_
  · exact .bind (keeps_setActiveState _) fun _ => .bind (keeps_reset hm) fun _ => .pure _
  · exact .bind (keeps_receiveCounted _) fun _ => .bind (keeps_receiveCounted _) fun _ => keeps_acknowledgeMessage

theorem keeps_sendResponse : KeepsRange m sendResponse := by
  have hfinish (message : Message) (byte : Byte) : KeepsRange m (finishResponse message byte) := by
    refine .bind (keeps_modifyImpl fun _ h => h.frame rfl rfl) fun _ => .bind (keeps_emit _) fun _ => ?_
    exact .bind (keeps_reset hm) fun _ => .pure _
  refine .bind keeps_getImpl fun _ => .bind (keeps_deref _) fun _ => .bind (keeps_sendPart _ _) fun _ =>
    .bind (keeps_read 0 10000) fun _ => .ite ?_ (hfinish _ _)
  exact .bind (keeps_sendPart _ _) fun _ => .bind (keeps_read 0 10000) fun _ => hfinish _ _

theorem keeps_lockBus : KeepsRange m lockBus := by
  refine .bind keeps_getImpl fun _ => .bind (keeps_deref _) fun _ => .bind (keeps_liftRange _) fun _ =>
    .bind (keeps_deviceSend _) fun _ => .bind (keeps_read 0 10000) fun _ => .ite (.ite ?_ ?_) (.pure _)
  · refine .bind (keeps_modifyImpl fun impl h => ?_) fun _ => .pure _
    obtain ⟨rfl, -, -⟩ := h
    exact ⟨rfl, hm, le_max_right _ _⟩
  · refine .bind (keeps_modifyImpl fun impl h => ⟨h.limit, ?_, ?_⟩) fun _ => .pure _
    · exact Int.one_nonneg
    · exact le_max_of_le_left one_le_two

theorem keeps_receiveResponse : KeepsRange m receiveResponse := by
  refine .bind keeps_getImpl fun _ => .bind (keeps_deref _) fun _ => keeps_retried fun retry => ?_
  refine .bind (keeps_read 1 0) fun _ => .ite ?_ ?_
  · exact .bind (keeps_setActiveState _) fun _ => .bind (keeps_reset hm) fun _ => .pure _
  · exact .bind (keeps_receiveSlave _) fun _ => keeps_acknowledgeResponse _ _

theorem keeps_freeBus : KeepsRange m freeBus :=
  .bind (keeps_writeRead _ 0 0) fun _ => .bind (keeps_reset hm) fun _ => .pure _

theorem keeps_handleDeviceError (error : Bool) : KeepsRange m (handleDeviceError error) := by
  intro w hw
  rw [wp_handleDeviceError]
  exact (hw.reset hm).frame rfl rfl

theorem keeps_runState (state : State) : KeepsRange m (runState state) := by
  refine .tryCatch ?_ fun stop => ?_
  · cases state with
    | idleSystem => exact keeps_idleSystem hm
    | openDevice => exact keeps_openDevice hm
    | monitorBus => exact keeps_monitorBus
    | receiveMessage => exact keeps_receiveMessage hm
    | processMessage => exact keeps_processMessage
    | sendResponse => exact keeps_sendResponse hm
    | lockBus => exact keeps_lockBus hm
    | sendMessage => exact keeps_retried keeps_sendAttempt
    | receiveResponse => exact keeps_receiveResponse hm
    | freeBus => exact keeps_freeBus hm
  · cases stop with
    | warning => exact keeps_handleDeviceError hm false
    | error => exact keeps_handleDeviceError hm true
    | _ => exact .throw _

end Handlers

end Range

/-! ### Runs -/

/-- The object once `set_lock_counter_max` was called. -/
def System.configured (address : Byte) (m : Int) : System :=
  { System.init address with impl := { initImpl address with lockCounterMax := m } }

theorem step_setLockCounterMax (address : Byte) (m : Int) :
    (System.init address).step (.setLockCounterMax m) = some (System.configured address m) := rfl

theorem ranged_configured {m : Int} (hm : 0 ≤ m) (address : Byte) :
    Ranged m (System.configured address m).impl :=
  ⟨rfl, le_rfl, hm.trans (le_max_right 2 m)⟩

theorem Ranged.step {m : Int} (hm : 0 ≤ m) {s s' : System} {a : Action} (h : Ranged m s.impl)
    (hset : ∀ value, a ≠ .setLockCounterMax value) (hstep : s.step a = some s') : Ranged m s'.impl := by
  cases a with
  | setLockCounterMax value => exact absurd rfl (hset value)
  | transmit message =>
    cases stepped_transmit hstep with
    | setting _ _ _ _ _ _ _ hsets => cases hsets
    | failed | called => exact h
  | thread env =>
    simp only [System.step] at hstep
    split at hstep
    · next state _ =>
      obtain rfl := Option.some_inj.1 hstep
      unfold System.runThread
      split_ifs
      · exact h
      · exact (keeps_runState hm state).exec (s := { impl := s.impl, env }) h
    · cases hstep
  | enqueue | awake | halt =>
    simp only [System.step] at hstep
    split_ifs at hstep
    cases hstep
    exact h.frame rfl rfl
  | check | wake =>
    simp only [System.step] at hstep
    split at hstep
    · cases hstep
      exact h.frame rfl rfl
    · cases hstep
  | _ =>
    cases hstep
    exact h.frame rfl rfl

/-- **The counter stays in its range**: in every run that does not set the maximum again, whatever bytes and
exceptions the device gives, also inside a handler that never returns. -/
theorem ranged_of_run {address : Byte} {m : Int} (hm : 0 ≤ m) {as : List Action} {s : System}
    (hrun : Run System.step (fun _ a => ∀ value, a ≠ .setLockCounterMax value) (System.configured address m) as s) :
    Ranged m s.impl :=
  hrun.invariant (I := fun s => Ranged m s.impl) (fun _ _ _ h hset hstep => h.step hm hset hstep)
    (ranged_configured hm address)

end EBusFsm
