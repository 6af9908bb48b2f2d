import EBusFsm.Machine.Custody

/-!
# The telegrams that messages refer to

A message of the source does not hold its telegram: `m_telegram` is a reference. The telegram of a request is
a local of the `transmit` call, the telegram of an answer a local of `processMessage`, and each is gone when its
function returns. `System` keeps the telegram in the message, so its handlers find one in any case.

`Lived` is the machine with these lifetimes. A round that uses a telegram which is gone leads to `undefined`,
and no step leads from there. A caller of `transmit` may also wake up although nobody notified it: `wait` does
not ask again, so the call returns, and its telegram is gone while the thread still has the message.

`processMessage` always returns before `sendResponse` runs. So a run is defined as long as no round enters
`sendResponse` and no caller wakes up by itself (`running_of_run`), and `run_unfaulted` and `found_iff` say what
becomes of the faults of the handlers and of what `run` finds at a state.
-/

namespace EBusFsm

open Prog

/-! ### Lifetimes -/

/-- The function that a telegram is a local of. -/
inductive Owner
  | processMessage
  | transmit (id : Nat)
  deriving DecidableEq, Repr

/-- A message that `processMessage` made has no number. -/
def Message.owner (message : Message) : Owner :=
  if message.id = 0 then .processMessage else .transmit message.id

/-- The function has not returned while the handler of a state runs. -/
def Owner.alive (s : System) (state : State) : Owner → Bool
  | .processMessage => state = .processMessage
  | .transmit id => s.calls.any fun call => call.id = id

/-- The message that a state is about. -/
def stateMessage (impl : EbusImpl) : State → Option Message
  | .sendResponse => impl.passiveMessage
  | .lockBus | .sendMessage | .receiveResponse | .freeBus => impl.activeMessage
  | _ => none

/-- The messages whose telegrams a round uses: the one that the handler binds a reference to, and the one that
`reset` publishes. -/
def usedMessages (impl : EbusImpl) (env : Env) (state : State) : List Message :=
  -- `freeBus` leaves the telegram to `reset`
  (if state = .freeBus then [] else (stateMessage impl state).toList) ++
    notifiedMessages (exec (runState state) { impl, env }).2.events

/-- The thread uses a telegram that is gone. -/
def System.dangles (s : System) : Action → Bool
  | .thread env =>
    match s.control with
    | .loop state =>
      s.impl.running && (usedMessages s.impl env state).any fun message => !message.owner.alive s state
    | _ => false
  | _ => false

/-- A call of `transmit` returns from the `wait` of its message although the message is not completed. -/
def System.spurious (s : System) (call : Call) (message : Message) : Option System :=
  if call ∈ s.calls ∧ message ∈ s.impl.held ∧ message.id = call.id then
    some
      { s with
        calls := s.calls.erase call
        returned :=
          ⟨call.id, call.request, message.state, message.telegram.slave.seq⟩ :: s.returned }
  else none

inductive Lived
  | running (s : System)
  | undefined
  deriving DecidableEq, Repr

inductive Occurrence
  | act (a : Action)
  | spurious (call : Call) (message : Message)
  deriving DecidableEq, Repr

def Lived.step : Lived → Occurrence → Option Lived
  | .running s, .act a => if s.dangles a then some .undefined else (s.step a).map .running
  | .running s, .spurious call message => (s.spurious call message).map .running
  | .undefined, _ => none

/-- No caller wakes up by itself. -/
def NoSpurious (_ : Lived) (o : Occurrence) : Prop := ∃ a, o = .act a

/-- The guard holds, no round enters `sendResponse`, and no caller wakes up by itself. -/
def Within (guard : System → Action → Prop) : Lived → Occurrence → Prop
  | .running s, .act a => guard s a ∧ ∀ env, a = .thread env → s.control ≠ .loop .sendResponse
  | _, _ => False

/-! ### Requests -/

section Requests

variable {address : Byte} {s : System} {state : State}

/-- The telegram of a request that is not completed is there. -/
theorem Accounted.alive (hsound : Sound address s) (h : Accounted address s) {message : Message}
    (hmessage : message ∈ s.entering ++ s.impl.held) (state : State) :
    message.owner.alive s state = true := by
  have hne : message.id ≠ 0 := by
    have hissued : message.id ∈ s.issued :=
      h.placed.mem_iff.1 (List.mem_map_of_mem (List.mem_append_left s.completed hmessage))
    rw [System.issued, List.mem_range'_1] at hissued
    omega
  obtain ⟨call, hcall, hid, -⟩ := h.inProgress hsound hmessage
  rw [Message.owner, if_neg hne]
  exact List.any_eq_true.2 ⟨call, hcall, decide_eq_true hid⟩

theorem Message.owner_of_core {message message' : Message} (h : message.core = message'.core) :
    message.owner = message'.owner := by
  rw [Message.owner, Message.owner, Message.id_of_core h]

/-- What a round publishes is a request. -/
theorem notified_from (hready : Ready s.impl state) (env : Env) {message : Message}
    (hm : message ∈ notifiedMessages (exec (runState state) { impl := s.impl, env }).2.events) :
    message.From s.impl.held := by
  have hwp := @handled s.impl env state hready
  rcases hx : exec (runState state) { impl := s.impl, env } with ⟨e | next, w⟩
  · have hh := wp_error hwp hx
    rw [hx] at hm
    exact Handled.notified hh hm
  · have hh := wp_ok hwp hx
    rw [hx] at hm
    exact Handled.notified hh hm

/-- Outside `sendResponse` a round uses telegrams of requests only. -/
theorem stateMessage_held (hstate : state ≠ .sendResponse) {message : Message}
    (hm : stateMessage s.impl state = some message) : message ∈ s.impl.held := by
  cases state with
  | sendResponse => exact absurd rfl hstate
  | lockBus | sendMessage | receiveResponse | freeBus =>
    exact List.mem_append_left _ (Option.mem_toList.2 hm)
  | _ => exact nomatch hm

/-- Outside `sendResponse` the telegrams that a round uses are there. -/
theorem Accounted.not_dangles (hsound : Sound address s) (h : Accounted address s) {a : Action}
    (hno : ∀ env, a = .thread env → s.control ≠ .loop .sendResponse) : s.dangles a = false := by
  cases a with
  | thread env =>
    unfold System.dangles
    cases hcontrol : s.control with
    | loop state =>
      have hstate : state ≠ .sendResponse := fun heq => hno env rfl (heq ▸ hcontrol)
      have hready : Ready s.impl state := by
        have hr := hsound.control
        rwa [hcontrol] at hr
      have hused : ∀ message ∈ usedMessages s.impl env state, message.From s.impl.held := by
        intro message hm
        rcases List.mem_append.1 hm with hm | hm
        · split_ifs at hm
          · exact nomatch hm
          · exact Message.from_of_mem (stateMessage_held hstate (Option.mem_toList.1 hm))
        · exact notified_from hready env hm
      have hnone : ((usedMessages s.impl env state).any fun message => !message.owner.alive s state) = false := by
        refine List.any_eq_false.2 fun message hm => ?_
        obtain ⟨message', hmessage', hcore⟩ := hused message hm
        rw [Message.owner_of_core hcore, h.alive hsound (List.mem_append_right _ hmessage') state]
        decide
      simp only [hnone, Bool.and_false]
    | _ => rfl
  | _ => rfl

end Requests

/-! ### Runs -/

/-- A run within the condition is a run of the system, and nothing in it is undefined. -/
theorem running_of_run {address : Byte} {guard : System → Action → Prop} {os : List Occurrence} {l : Lived}
    (hrun : Run Lived.step (Within guard) (.running (System.init address)) os l) :
    ∃ s as, l = .running s ∧ Run System.step guard (System.init address) as s := by
  refine hrun.invariant (I := fun l => ∃ s as, l = .running s ∧ Run System.step guard (System.init address) as s)
    ?_ ⟨_, [], rfl, .nil _⟩
  rintro _ o l' ⟨s, as, rfl, hs⟩ hguard hstep
  cases o with
  | spurious => exact hguard.elim
  | act a =>
    obtain ⟨hguard, hno⟩ := hguard
    rw [Lived.step, (accounted_of_run hs).not_dangles (sound_of_run hs) hno, if_neg Bool.false_ne_true,
      Option.map_eq_some_iff] at hstep
    obtain ⟨s', hs', rfl⟩ := hstep
    exact ⟨s', as ++ [a], rfl, hs.append (.cons hguard hs' (.nil s'))⟩

/-- As long as a run is defined, it is a run of the system. -/
theorem system_of_run {address : Byte} {os : List Occurrence} {s : System}
    (hrun : Run Lived.step NoSpurious (.running (System.init address)) os (.running s)) :
    ∃ as, Run System.step (fun _ _ => True) (System.init address) as s := by
  let I : Lived → Prop := fun l =>
    ∀ s, l = .running s → ∃ as, Run System.step (fun _ _ => True) (System.init address) as s
  have hinit : I (.running (System.init address)) := by
    rintro _ ⟨⟩
    exact ⟨[], .nil _⟩
  refine hrun.invariant (I := I) ?_ hinit s rfl
  rintro l _ l' hI ⟨a, rfl⟩ hstep s' rfl
  cases l with
  | undefined => exact nomatch hstep
  | running s =>
    obtain ⟨as, hs⟩ := hI s rfl
    rw [Lived.step] at hstep
    split_ifs at hstep
    · cases hstep
    · obtain ⟨t, hs', ht⟩ := Option.map_eq_some_iff.1 hstep
      cases ht
      exact ⟨as ++ [a], hs.append (.cons trivial hs' (.nil _))⟩

/-- The machine has neither used a telegram that is gone nor faulted. -/
def Lived.Unfaulted (l : Lived) : Prop := ∃ s, l = .running s ∧ s.control ≠ .crashed

/-- **No handler dereferences a null message, indexes a sequence out of range or uses a telegram that is gone**,
in a run in which no oversized message arrives while nothing waits to be sent, no round enters `sendResponse` and
no caller of `transmit` wakes up by itself. -/
theorem run_unfaulted {address : Byte} {os : List Occurrence} {l : Lived} (hvalid : ValidAddress address)
    (hrun : Run Lived.step (Within NoOversize) (.running (System.init address)) os l) : l.Unfaulted := by
  obtain ⟨s, as, rfl, hs⟩ := running_of_run hrun
  exact ⟨s, rfl, control_ne_crashed hvalid hs⟩

/-- The state of the system, as long as it is defined. -/
def Lived.system : Lived → Option System
  | .running s => some s
  | .undefined => none

/-- An evaluation that ends in a defined state. -/
theorem exists_running {l : Option Lived} {β : Type} {f : System → β} {b : β}
    (h : (l.bind Lived.system).map f = some b) : ∃ s, l = some (.running s) ∧ f s = b := by
  obtain ⟨s, hs, hf⟩ := Option.map_eq_some_iff.1 h
  obtain ⟨l', rfl, hl'⟩ := Option.bind_eq_some_iff.1 hs
  cases l' with
  | undefined => cases hl'
  | running t =>
    obtain rfl := Option.some_inj.1 hl'
    exact ⟨t, rfl, hf⟩

/-- A test for `Within`. -/
def within (test : System → Action → Bool) : Lived → Occurrence → Bool
  | .running s, .act a => test s a && s.control ≠ .loop .sendResponse
  | _, _ => false

theorem within_spec {test : System → Action → Bool} {guard : System → Action → Prop}
    (htest : ∀ s a, test s a = true → guard s a) (l : Lived) (o : Occurrence) (h : within test l o = true) :
    Within guard l o := by
  cases l with
  | undefined => cases h
  | running s =>
    cases o with
    | spurious => cases h
    | act a =>
      obtain ⟨ha, hno⟩ := (Bool.and_eq_true _ _).mp h
      exact ⟨htest s a ha, fun _ _ => of_decide_eq_true hno⟩

/-- The third byte that a handler would read is in bounds. -/
def sizeInBounds : Action → Bool
  | .thread env =>
    match env.reads with
    | .byte _ :: .byte _ :: .byte nn :: _ => nn.toNat ≤ seqMaxBytes
    | _ => true
  | _ => true

theorem noOversize_of_sizeInBounds (s : System) (a : Action) (h : sizeInBounds a = true) :
    NoOversize s a := by
  rintro env pb sb nn rest rfl _ _ hreads
  simpa [sizeInBounds, hreads] using h

/-- A participant receives the broadcast `10feb505012795`. -/
theorem run_unfaulted_sample :
    ∃ l, execute Lived.step (within fun _ => sizeInBounds) (.running (System.init 0xff))
        ((handlers [[0xaa], [0x10], [0xfe], [0xb5, 0x05, 0x01, 0x27, 0x95], []]).map .act) = some l ∧
      l.Unfaulted := by
  have hsome : (execute Lived.step (within fun _ => sizeInBounds) (.running (System.init 0xff))
      ((handlers [[0xaa], [0x10], [0xfe], [0xb5, 0x05, 0x01, 0x27, 0x95], []]).map .act)).isSome := by
    decide +kernel
  obtain ⟨l, hl⟩ := Option.isSome_iff_exists.1 hsome
  exact ⟨l, hl, run_unfaulted (.inl (by decide)) (run_of_execute (within_spec noOversize_of_sizeInBounds) hl)⟩

/-- The header `10feb50511` of an oversized broadcast arrives while nothing waits to be sent. -/
theorem run_faulted_sample :
    ¬ ∀ (address : Byte) (os : List Occurrence) (l : Lived), ValidAddress address →
      Run Lived.step (fun _ _ => True) (.running (System.init address)) os l → l.Unfaulted := by
  intro h
  let as := handlers [[0xaa], [0x10], [0xfe]] ++ [.thread { reads := [0xb5, 0x05, 0x11].map .byte }]
  have hrun : ((execute Lived.step (fun _ _ => true) (.running (System.init 0xff)) (as.map .act)).bind
      Lived.system).map System.control = some .crashed := by decide +kernel
  obtain ⟨s, hs, hcrash⟩ := exists_running hrun
  obtain ⟨_, ⟨⟩, hne⟩ := h 0xff _ _ (.inl (by decide)) (run_of_execute (fun _ _ _ => trivial) hs)
  exact hne hcrash

/-! ### The answer -/

/-- `sendResponse` is entered with the message that `processMessage` made. -/
def Answering (impl : EbusImpl) (state : State) : Prop :=
  state = .sendResponse → ∀ message, impl.passiveMessage = some message → message.owner = .processMessage

theorem Handled.answering {impl impl' : EbusImpl} {env : Env} {state : State} {result : Except Stop State}
    {evs : List Event} (h : Handled impl env state result impl' evs) :
    (Control.after result).Holds (Answering impl') := by
  cases h with
  | idle hresult => rcases hresult with ⟨-, rfl⟩ | ⟨-, rfl⟩ <;> exact nofun
  | answer =>
    rintro - message hpassive
    obtain rfl := Option.some_inj.1 hpassive
    rfl
  | synced | acked => split_ifs <;> exact nofun
  | device h he => rcases he with rfl | rfl <;> exact nofun
  | oversizeAlone | misread | hung => trivial
  | _ => exact nofun

theorem answering_of_run {address : Byte} {guard : System → Action → Prop} {as : List Action} {s : System}
    (hrun : Run System.step guard (System.init address) as s) : s.control.Holds (Answering s.impl) := by
  refine (hrun.invariant (I := fun s => Sound address s ∧ s.control.Holds (Answering s.impl)) ?_
    ⟨sound_init address, nofun⟩).2
  rintro s a s' ⟨hsound, h⟩ - hstep
  refine ⟨hsound.step hstep, ?_⟩
  cases stepped hsound.control hstep with
  | setting | enqueued => exact h.mono fun _ h => h
  | failed | called | awoken => exact h
  | stopped => trivial
  | thread _ hh => exact hh.answering
  | @check state hstate =>
    rw [hstate] at h
    show (Control.loop (if s.impl.close then .idleSystem else state)).Holds (Answering s.impl)
    split_ifs
    · exact nofun
    · exact h
  | wake => exact nofun

/-- What `run` finds at a state: the members that its handler counts on, and the telegram of its message. -/
structure Found (s : System) (state : State) : Prop where
  kept : Kept s.impl state
  alive : ∀ message, stateMessage s.impl state = some message → message.owner.alive s state = true

/-- `sendResponse` has a message, and its telegram is gone. -/
theorem answer_gone {address : Byte} {guard : System → Action → Prop} {as : List Action} {s : System}
    (hrun : Run System.step guard (System.init address) as s) (hstate : s.control = .loop .sendResponse) :
    ∃ message, s.impl.passiveMessage = some message ∧ message.owner.alive s .sendResponse = false := by
  obtain ⟨message, hpassive, -⟩ := kept_of_run hrun hstate
  have hanswering := answering_of_run hrun
  rw [hstate] at hanswering
  have howner := hanswering rfl message hpassive
  exact ⟨message, hpassive, by rw [howner]; rfl⟩

/-- A round in `sendResponse` is undefined. -/
theorem sendResponse_undefined {address : Byte} {os : List Occurrence} {s : System}
    (hrun : Run Lived.step NoSpurious (.running (System.init address)) os (.running s))
    (hstate : s.control = .loop .sendResponse) (hrunning : s.impl.running = true) (env : Env) :
    (Lived.running s).step (.act (.thread env)) = some .undefined := by
  obtain ⟨as, hs⟩ := system_of_run hrun
  obtain ⟨message, hpassive, hgone⟩ := answer_gone hs hstate
  have hused : message ∈ usedMessages s.impl env .sendResponse :=
    List.mem_append_left _ (Option.mem_toList.2 hpassive)
  have hany : ((usedMessages s.impl env .sendResponse).any fun message => !message.owner.alive s .sendResponse) =
      true := List.any_eq_true.2 ⟨message, hused, by rw [hgone]; rfl⟩
  have hdangles : s.dangles (.thread env) = true := by
    simp only [System.dangles, hstate, hrunning, hany, Bool.and_self]
  rw [Lived.step, if_pos hdangles]

/-- **A handler finds what it counts on, except for `sendResponse`**: in every run in which no caller of `transmit`
wakes up by itself, whatever bytes and exceptions the device gives and whenever `close` is called, each round of
`run` begins with the members that `Kept` names and with the telegram they speak of, exactly if it is not a round
in `sendResponse`. -/
theorem found_iff {address : Byte} {os : List Occurrence} {s : System}
    (hrun : Run Lived.step NoSpurious (.running (System.init address)) os (.running s)) {state : State}
    (hstate : s.control = .loop state) : Found s state ↔ state ≠ .sendResponse := by
  obtain ⟨as, hs⟩ := system_of_run hrun
  constructor
  · rintro hfound rfl
    obtain ⟨message, hpassive, hgone⟩ := answer_gone hs hstate
    exact absurd (hfound.alive message hpassive) (by rw [hgone]; decide)
  · intro hne
    refine ⟨kept_of_run hs hstate, fun message hm => ?_⟩
    have hheld := stateMessage_held hne hm
    exact (accounted_of_run hs).alive (sound_of_run hs) (List.mem_append_right _ hheld) state

/-- A test for `NoSpurious`. -/
def Occurrence.acts : Occurrence → Bool
  | .act _ => true
  | .spurious .. => false

theorem noSpurious_of_acts (l : Lived) (o : Occurrence) (h : o.acts = true) : NoSpurious l o := by
  cases o with
  | act a => exact ⟨a, rfl⟩
  | spurious => cases h

/-- The participant `ff` enters `lockBus` for a broadcast. -/
theorem found_iff_sample :
    ∃ s, execute Lived.step (fun _ o => o.acts) (.running (System.init 0xff))
        ((requestBroadcast ++ handlers [[0xaa]]).map .act) = some (.running s) ∧ Found s .lockBus := by
  have hrun : ((execute Lived.step (fun _ o => o.acts) (.running (System.init 0xff))
      ((requestBroadcast ++ handlers [[0xaa]]).map .act)).bind Lived.system).map System.control =
        some (.loop .lockBus) := by decide +kernel
  obtain ⟨s, hs, hstate⟩ := exists_running hrun
  exact ⟨s, hs, (found_iff (run_of_execute noSpurious_of_acts hs) hstate).2 nofun⟩

/-- The participant `ff`, whose slave address is `04`, receives `1004b505012724`, and its callback answers
`0142`. -/
def answerSlave : List Action :=
  .registerProcess :: handlers [[0xaa], [0x10], [0x04], [0xb5, 0x05, 0x01, 0x27, 0x24, 0x00]] ++
    [.thread { reaction := .response, response := [0x01, 0x42] }, .check]

/-- `sendResponse` is entered with a telegram that is gone. -/
theorem unfound_sample :
    ¬ ∀ (address : Byte) (os : List Occurrence) (s : System) (state : State), ValidAddress address →
      Run Lived.step NoSpurious (.running (System.init address)) os (.running s) →
      s.control = .loop state → Found s state := by
  intro h
  have hrun : ((execute Lived.step (fun _ o => o.acts) (.running (System.init 0xff))
      (answerSlave.map .act)).bind Lived.system).map System.control = some (.loop .sendResponse) := by
    decide +kernel
  obtain ⟨s, hs, hstate⟩ := exists_running hrun
  have hlived := run_of_execute noSpurious_of_acts hs
  obtain ⟨as, hsystem⟩ := system_of_run hlived
  obtain ⟨message, hpassive, hgone⟩ := answer_gone hsystem hstate
  have hfound := h 0xff _ s _ (.inl (by decide)) hlived hstate
  exact absurd (hfound.alive message hpassive) (by rw [hgone]; decide)

end EBusFsm
