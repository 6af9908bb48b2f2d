import EBusFsm.Machine.Transition
import EBusFsm.Lib.Run

/-!
# No handler faults

`Sound` is the invariant of the machine that needs no assumption about the environment: the handler that
runs next can start, and every message that the machine holds carries the telegram of its call. From it
`control_ne_crashed` follows for the runs in which no oversized message arrives while nothing waits to be
sent; `receiveMessage` marks the active message as failed without asking whether there is one. Whether the
telegram that a message refers to is still there is another question (`run_unfaulted`).
-/

namespace EBusFsm

open Prog

/-! ### Messages of calls -/

/-- The message carries the telegram of a request. -/
def Message.Carries (message : Message) (address : Byte) (request : List Byte) : Prop :=
  ∃ m : Master, m.Text (address :: request) message.telegram.master ∧
    message.telegram.type = m.type ∧ message.telegram.masterCRC = m.crc

theorem Message.Carries.of_core {message message' : Message} {address : Byte} {request : List Byte}
    (h : message.Carries address request) (hcore : message'.core = message.core) :
    message'.Carries address request := by
  obtain ⟨m, ht, htype, hcrc⟩ := h
  have hmaster : message'.telegram.master = message.telegram.master :=
    congrArg (fun message => message.telegram.master) hcore
  have htype' : message'.telegram.type = message.telegram.type :=
    congrArg (fun message => message.telegram.type) hcore
  have hcrc' : message'.telegram.masterCRC = message.telegram.masterCRC :=
    congrArg (fun message => message.telegram.masterCRC) hcore
  exact ⟨m, by rwa [hmaster], htype'.trans htype, hcrc'.trans hcrc⟩

theorem Message.Carries.seq {message : Message} {address : Byte} {request : List Byte}
    (h : message.Carries address request) :
    ∃ qq rest, message.telegram.master.seq = qq :: rest := by
  obtain ⟨m, ht, -, -⟩ := h
  obtain ⟨rest, hseq⟩ := ht.stored_eq
  exact ⟨m.qq, m.zz :: rest, hseq⟩

theorem Message.id_of_core {message message' : Message} (h : message'.core = message.core) :
    message'.id = message.id := by
  have hid := congrArg Message.id h
  exact hid

/-! ### The invariant -/

/-- The messages of calls that passed the checks. -/
def System.messages (s : System) : List Message := s.entering ++ s.impl.held ++ s.completed

structure Sound (address : Byte) (s : System) : Prop where
  own : s.impl.address = address
  ownSlave : s.impl.slaveAddress = slaveAddress address
  ids : ∀ message ∈ s.messages, message.id < s.nextId
  callIds : ∀ call ∈ s.calls, call.id < s.nextId
  carries : ∀ message ∈ s.messages, ∃ request, message.Carries address request
  calls : ∀ call ∈ s.calls, ∀ message ∈ s.messages, message.id = call.id →
    message.Carries address call.request
  control : s.control.Ready s.impl

/-- An own address that is a master or a slave address. -/
def ValidAddress (address : Byte) : Prop := isMaster address = true ∨ isSlave address = true

theorem not_reserved_of_validAddress {address : Byte} (h : ValidAddress address) :
    ¬ ebusCode.Reserved address := by
  rcases h with h | h
  · exact not_reserved_of_isMaster h
  · simp only [isSlave, Bool.and_eq_true, bne_iff_ne, ne_eq] at h
    exact not_or.2 ⟨h.1.2, h.2⟩

theorem not_reserved_slaveAddress {address : Byte} (h : ValidAddress address) :
    ¬ ebusCode.Reserved (slaveAddress address) := by
  unfold slaveAddress
  by_cases hs : isSlave address = true
  · rw [if_pos hs]
    exact not_reserved_of_validAddress h
  · rw [if_neg hs]
    have hbyte : ∀ b, isMaster b = true → ¬ ebusCode.Reserved (b + 5) := forall_byte (by decide +kernel)
    exact hbyte address (h.resolve_right hs)

theorem Addressed.not_reserved {address : Byte} (hvalid : ValidAddress address) {impl : EbusImpl}
    (haddress : impl.address = address) (hslave : impl.slaveAddress = slaveAddress address)
    {zz : Byte} (h : Addressed impl zz) : ¬ ebusCode.Reserved zz := by
  rcases h with rfl | rfl | rfl
  · decide
  · rw [haddress]
    exact not_reserved_of_validAddress hvalid
  · rw [hslave]
    exact not_reserved_slaveAddress hvalid

theorem Message.From.carries {message : Message} {l : List Message} {address : Byte}
    (h : message.From l) (hl : ∀ message ∈ l, ∃ request, message.Carries address request) :
    ∃ request, message.Carries address request := by
  obtain ⟨message', hm, hcore⟩ := h
  obtain ⟨request, hc⟩ := hl message' hm
  exact ⟨request, hc.of_core hcore⟩

/-- The handlers enter a state as its handler expects. -/
theorem Handled.ready {address : Byte} {impl impl' : EbusImpl} {env : Env} {state next : State}
    {evs : List Event} (h : Handled impl env state (.ok next) impl' evs)
    (hheld : ∀ message ∈ impl.held, ∃ request, message.Carries address request) :
    Ready impl' next := by
  generalize hresult : Except.ok next = result at h
  cases h with
  | idle h =>
    rcases h with ⟨-, heq⟩ | ⟨-, heq⟩
    · obtain rfl : next = .openDevice := Except.ok.inj (hresult.trans heq)
      trivial
    · exact nomatch hresult.trans heq
  | addressed hzz h hseq haddr =>
    cases hresult
    exact ⟨_, _, rfl, haddr⟩
  | synced h hqueue hevs hseq =>
    cases hresult
    split_ifs with hlock
    · obtain ⟨message, rfl⟩ := Option.isSome_iff_exists.1 hlock.1
      have hm : message ∈ impl.held := held_of_dequeued hqueue (List.mem_append_left _ (by simp))
      obtain ⟨request, hc⟩ := hheld message hm
      obtain ⟨qq, rest, hqq⟩ := hc.seq
      exact ⟨message, qq, rest, rfl, hqq⟩
    · trivial
  | received hseq hr ht hevs h hred =>
    cases hresult
    exact ⟨_, _, by rw [hred]; exact ht⟩
  | answer =>
    cases hresult
    exact ⟨_, rfl⟩
  | won hactive =>
    cases hresult
    exact ⟨_, hactive⟩
  | acked hactive htype =>
    cases hresult
    split_ifs
    · trivial
    · exact ⟨_, rfl⟩
  | device h he =>
    cases hresult
    rcases he with rfl | rfl <;> trivial
  | oversizeAlone | misread | hung => exact nomatch hresult
  | _ =>
    cases hresult
    trivial

/-! ### Steps -/

theorem sound_init (address : Byte) : Sound address (System.init address) where
  own := rfl
  ownSlave := rfl
  ids := by simp [System.messages, System.init, initImpl, EbusImpl.held]
  callIds := by simp [System.init]
  carries := by simp [System.messages, System.init, initImpl, EbusImpl.held]
  calls := by simp [System.init]
  control := trivial

/-- The messages and calls of a step that neither creates nor changes one. -/
theorem Sound.of_messages {address : Byte} {s s' : System} (h : Sound address s)
    (hown : s'.impl.address = s.impl.address) (hslave : s'.impl.slaveAddress = s.impl.slaveAddress)
    (hid : s'.nextId = s.nextId) (hcalls : ∀ call ∈ s'.calls, call ∈ s.calls)
    (hmessages : ∀ message ∈ s'.messages, message.From s.messages)
    (hcontrol : s'.control.Ready s'.impl) : Sound address s' where
  own := hown.trans h.own
  ownSlave := hslave.trans h.ownSlave
  ids := by
    intro message hm
    obtain ⟨message', hm', hcore⟩ := hmessages message hm
    rw [hid, Message.id_of_core hcore]
    exact h.ids message' hm'
  callIds := by
    intro call hcall
    rw [hid]
    exact h.callIds call (hcalls call hcall)
  carries := fun message hm => (hmessages message hm).carries h.carries
  calls := by
    intro call hcall message hm heq
    obtain ⟨message', hm', hcore⟩ := hmessages message hm
    rw [Message.id_of_core hcore] at heq
    exact (h.calls call (hcalls call hcall) message' hm' heq).of_core hcore
  control := hcontrol

theorem mem_messages_of_held {s : System} {message : Message} (h : message ∈ s.impl.held) :
    message ∈ s.messages := List.mem_append_left _ (List.mem_append_right _ h)

theorem Message.From.mono {message : Message} {l l' : List Message} (h : message.From l)
    (hl : ∀ message ∈ l, message ∈ l') : message.From l' := by
  obtain ⟨message', hm, hcore⟩ := h
  exact ⟨message', hl message' hm, hcore⟩

/-- The messages behind a handler. -/
theorem Handled.messages_from {s : System} {env : Env} {state : State} {result : Except Stop State}
    {impl' : EbusImpl} {evs : List Event} (hh : Handled s.impl env state result impl' evs)
    {message : Message} (hm : message ∈ s.entering ++ impl'.held ++ (notifiedMessages evs ++ s.completed)) :
    message.From s.messages := by
  simp only [List.mem_append] at hm
  rcases hm with (hm | hm) | hm | hm
  · exact Message.from_of_mem (List.mem_append_left _ (List.mem_append_left _ hm))
  · exact (hh.held hm).mono fun _ => mem_messages_of_held
  · exact (hh.notified hm).mono fun _ => mem_messages_of_held
  · exact Message.from_of_mem (List.mem_append_right _ hm)

/-- The messages behind `enqueue`. -/
theorem mem_messages_of_enqueued {s : System} {first message : Message} (hfirst : first ∈ s.entering)
    (hm : message ∈ s.entering.erase first ++ (s.impl.activeMessage.toList ++
      (s.impl.messageQueue ++ [first])) ++ s.completed) : message ∈ s.messages := by
  simp only [List.mem_append, List.mem_singleton] at hm
  simp only [System.messages, EbusImpl.held, List.mem_append]
  rcases hm with (hm | hm | hm | rfl) | hm
  · exact .inl (.inl (List.mem_of_mem_erase hm))
  · exact .inl (.inr (.inl hm))
  · exact .inl (.inr (.inr hm))
  · exact .inl (.inl hfirst)
  · exact .inr hm

theorem Sound.handled {address : Byte} {s : System} (h : Sound address s) {env : Env} {state : State} {result : Except Stop State}
    {impl' : EbusImpl} {evs : List Event} (hh : Handled s.impl env state result impl' evs) :
    Sound address { s with
      impl := impl'
      control := .after result
      completed := notifiedMessages evs ++ s.completed
      log := s.log ++ evs } := by
  have hheld : ∀ message ∈ s.impl.held, ∃ request, message.Carries address request :=
    fun message hm => h.carries message (mem_messages_of_held hm)
  refine h.of_messages hh.address hh.slaveAddress rfl (fun _ hc => hc) (fun _ => hh.messages_from) ?_
  rcases result with e | next
  · rcases e <;> trivial
  · exact hh.ready hheld

theorem Sound.called {address : Byte} {s : System} (h : Sound address s) {message : List Byte}
    {tel : Telegram} {m : Master} (ht : m.Text (s.impl.address :: message) tel.master)
    (htel : tel = ({} : Telegram).withMaster m tel.master m.crc SEQ_OK) :
    Sound address { s with
      nextId := s.nextId + 1
      calls := ⟨s.nextId, message⟩ :: s.calls
      entering := ⟨s.nextId, tel, 0⟩ :: s.entering } := by
  rw [h.own] at ht
  have hcarries : (⟨s.nextId, tel, 0⟩ : Message).Carries address message := by
    refine ⟨m, ht, ?_, ?_⟩
    · rw [htel]
      rfl
    · rw [htel]
      rfl
  let new : System := { s with
    nextId := s.nextId + 1
    calls := ⟨s.nextId, message⟩ :: s.calls
    entering := ⟨s.nextId, tel, 0⟩ :: s.entering }
  have hmem : ∀ message' ∈ new.messages, message' = ⟨s.nextId, tel, 0⟩ ∨ message' ∈ s.messages := by
    intro message' hm
    simpa [new, System.messages] using hm
  have hcalls : ∀ call ∈ new.calls, call = ⟨s.nextId, message⟩ ∨ call ∈ s.calls := by
    intro call hcall
    simpa [new] using hcall
  refine ⟨h.own, h.ownSlave, fun message' hm => ?_, fun call hcall => ?_, fun message' hm => ?_,
    fun call hcall message' hm heq => ?_, h.control⟩
  · rcases hmem message' hm with rfl | hm
    · exact Nat.lt_succ_self _
    · exact Nat.lt_succ_of_lt (h.ids message' hm)
  · rcases hcalls call hcall with rfl | hcall
    · exact Nat.lt_succ_self _
    · exact Nat.lt_succ_of_lt (h.callIds call hcall)
  · rcases hmem message' hm with rfl | hm
    · exact ⟨message, hcarries⟩
    · exact h.carries message' hm
  -- the number of the new call is the number of no other message
  · rcases hcalls call hcall with rfl | hcall <;> rcases hmem message' hm with rfl | hm
    · exact hcarries
    · exact absurd (h.ids message' hm) (by rw [heq]; exact Nat.lt_irrefl _)
    · exact absurd (h.callIds call hcall) (by rw [← heq]; exact Nat.lt_irrefl _)
    · exact h.calls call hcall message' hm heq

theorem ready_setting {impl impl' : EbusImpl} {state : State}
    (haddress : impl'.address = impl.address) (hslave : impl'.slaveAddress = impl.slaveAddress)
    (hsequence : impl'.sequence = impl.sequence)
    (hactive : impl'.activeMessage = impl.activeMessage)
    (hpassive : impl'.passiveMessage = impl.passiveMessage) (h : Ready impl state) :
    Ready impl' state := by
  cases state <;>
    simp only [Ready, Addressed, haddress, hslave, hsequence, hactive, hpassive] at h ⊢ <;> exact h

theorem Control.Ready.setting {impl impl' : EbusImpl} {control : Control}
    (haddress : impl'.address = impl.address) (hslave : impl'.slaveAddress = impl.slaveAddress)
    (hsequence : impl'.sequence = impl.sequence)
    (hactive : impl'.activeMessage = impl.activeMessage)
    (hpassive : impl'.passiveMessage = impl.passiveMessage) (h : control.Ready impl) :
    control.Ready impl' := by
  cases control with
  | loop state => exact ready_setting haddress hslave hsequence hactive hpassive h
  | check state => exact ready_setting haddress hslave hsequence hactive hpassive h
  | _ => trivial

/-- A message of a step was there before, or a call of `transmit` created it. -/
theorem Stepped.created_or_from {s s' : System} {a : Action} (h : Stepped s a s') {message : Message}
    (hm : message ∈ s'.messages) :
    message.From s.messages ∨ ∃ (m : Master) (stored : Sequence),
      message.telegram = ({} : Telegram).withMaster m stored m.crc SEQ_OK := by
  cases h with
  | setting | failed | awoken | stopped | check | wake => exact .inl (Message.from_of_mem hm)
  | @called request tel m _ htel =>
    have hnew : message = ⟨s.nextId, tel, 0⟩ ∨ message ∈ s.messages := by
      simpa [System.messages] using hm
    rcases hnew with rfl | hm
    · exact .inr ⟨m, tel.master, htel⟩
    · exact .inl (Message.from_of_mem hm)
  | enqueued hmessage => exact .inl (Message.from_of_mem (mem_messages_of_enqueued hmessage hm))
  | thread _ hh => exact .inl (hh.messages_from hm)

/-- Every step keeps the invariant. -/
theorem Sound.step {address : Byte} {s s' : System} {a : Action}
    (h : Sound address s) (hstep : s.step a = some s') : Sound address s' := by
  have hmem : ∀ message ∈ s.messages, message.From s.messages := fun _ => Message.from_of_mem
  cases stepped h.control hstep with
  | setting =>
    exact h.of_messages rfl rfl rfl (fun _ hc => hc) hmem (h.control.setting rfl rfl rfl rfl rfl)
  | failed => exact h.of_messages rfl rfl rfl (fun _ hc => hc) hmem h.control
  | called ht htel => exact h.called ht htel
  | enqueued hmessage =>
    exact h.of_messages rfl rfl rfl (fun _ hc => hc)
      (fun _ hm => Message.from_of_mem (mem_messages_of_enqueued hmessage hm))
      (h.control.setting rfl rfl rfl rfl rfl)
  | awoken hcall hmessage hid =>
    exact h.of_messages rfl rfl rfl (fun _ hc => List.mem_of_mem_erase hc) hmem h.control
  | stopped hstate => exact h.of_messages rfl rfl rfl (fun _ hc => hc) hmem trivial
  | thread hstate hh => exact h.handled hh
  | check hstate =>
    refine h.of_messages rfl rfl rfl (fun _ hc => hc) hmem ?_
    have hc := h.control
    rw [hstate] at hc
    simp only [Control.Ready]
    split_ifs
    · trivial
    · exact hc
  | wake hwait => exact h.of_messages rfl rfl rfl (fun _ hc => hc) hmem trivial

/-- Every reachable state satisfies the invariant. -/
theorem sound_of_run {address : Byte} {guard : System → Action → Prop} {as : List Action} {s : System}
    (hrun : Run System.step guard (System.init address) as s) : Sound address s :=
  hrun.invariant (fun _ _ _ h _ hstep => h.step hstep) (sound_init address)

/-! ### The fault of `receiveMessage` -/

/-- When no message waits to be sent, the size byte of a message for this participant is in bounds. -/
def NoOversize (s : System) (a : Action) : Prop :=
  ∀ env pb sb nn rest, a = .thread env → s.control = .loop .receiveMessage →
    s.impl.activeMessage = none → env.reads = .byte pb :: .byte sb :: .byte nn :: rest →
    nn.toNat ≤ seqMaxBytes

/-- A handler ends with a fault only on an oversized message that arrives while nothing waits to be
sent. -/
theorem Handled.no_fault {address : Byte} (hvalid : ValidAddress address) {impl impl' : EbusImpl}
    {env : Env} {state : State} {result : Except Stop State} {evs : List Event}
    (h : Handled impl env state result impl' evs) (haddress : impl.address = address)
    (hslave : impl.slaveAddress = EBusFsm.slaveAddress address) (hready : Ready impl state)
    (hcrash : Control.after result = .crashed) :
    state = .receiveMessage ∧ impl.activeMessage = none ∧
      ∃ pb sb nn rest, env.reads = .byte pb :: .byte sb :: .byte nn :: rest ∧
        nn.toNat > seqMaxBytes := by
  cases h with
  | oversizeAlone hnn h hactive => exact ⟨rfl, hactive, _, _, _, _, h.reads, hnn⟩
  | @misread qq zz r w hseq hzz h =>
    obtain ⟨qq', zz', hseq', haddr⟩ := hready
    obtain ⟨rfl, rfl⟩ : qq = qq' ∧ zz = zz' := by simpa using hseq.symm.trans hseq'
    exact absurd hzz (haddr.not_reserved hvalid haddress hslave)
  | idle hresult => rcases hresult with ⟨-, rfl⟩ | ⟨-, rfl⟩ <;> exact nomatch hcrash
  | _ => exact nomatch hcrash

theorem ne_crashed_step {address : Byte} (hvalid : ValidAddress address) {s s' : System}
    {a : Action} (h : Sound address s ∧ s.control ≠ .crashed) (hguard : NoOversize s a)
    (hstep : s.step a = some s') : Sound address s' ∧ s'.control ≠ .crashed := by
  refine ⟨h.1.step hstep, ?_⟩
  cases stepped h.1.control hstep with
  | thread hstate hh =>
    intro hcrash
    have hready := h.1.control
    rw [hstate] at hready
    obtain ⟨rfl, hactive, pb, sb, nn, rest, hreads, hnn⟩ :=
      hh.no_fault hvalid h.1.own h.1.ownSlave hready hcrash
    exact absurd (hguard _ pb sb nn rest rfl hstate hactive hreads) (Nat.not_le_of_gt hnn)
  | stopped | check | wake => simp
  | _ => exact h.2

/-- **No handler dereferences a null message or indexes a sequence out of range**, in a run in which no
oversized message arrives while nothing waits to be sent. -/
theorem control_ne_crashed {address : Byte} {as : List Action} {s : System}
    (hvalid : ValidAddress address)
    (hrun : Run System.step NoOversize (System.init address) as s) : s.control ≠ .crashed :=
  (hrun.invariant (fun _ _ _ h hguard hstep => ne_crashed_step hvalid h hguard hstep)
    ⟨sound_init address, by simp [System.init]⟩).2

/-- One handler after the other, without an interruption. -/
def handlers (scripts : List (List Byte)) : List Action :=
  scripts.flatMap fun l => [.thread { reads := l.map .byte }, .check]

/-- A round that the device serves. -/
def Action.clean : Action → Bool
  | .thread env => env.clean
  | _ => true

end EBusFsm
