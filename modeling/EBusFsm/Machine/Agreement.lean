import EBusFsm.Machine.Wire
import EBusFsm.Machine.Reception
import EBusFsm.Telegram.Decode

/-!
# The active side against the parser

An exchange of the active side leaves bytes on the bus, and everybody else decodes them with `parse`.
`transcript_agrees` says that `parse` reads the telegram that the sender holds, for every telegram that
is `Sendable` and, if a slave answers, for every stream on which the first response is accepted with its
CRC (`Prompt`). The two halves of the proof meet at `Encoded`: the bytes on the bus are the extended form
of such a text, and `parse` accepts it.

Otherwise the two implementations disagree. What `sendMessage` leaves unescaped reads as something else;
`parse` gives up at a response with a wrong CRC, where `receiveResponse` asks for it again; and
`receiveResponse` takes a response without a CRC.
-/

namespace EBusFsm

open Prog

/-! ### Exchanges -/

/-- The bytes on the bus: what is written, and what is read and is no echo. -/
def busBytes : List Event → List Byte
  | .wrote b :: .got _ :: evs => b :: busBytes evs
  | .wrote b :: evs => b :: busBytes evs
  | .got b :: evs => b :: busBytes evs
  | _ :: evs => busBytes evs
  | [] => []

/-- The handlers run from the arbitration to `freeBus`; each has its own environment. -/
inductive Exchanging (impl : EbusImpl) (lock send receive : Env) : EbusImpl → List Event → Prop
  | direct {w₁ w₂ : World} (hlock : exec lockBus { impl, env := lock } = (.ok .sendMessage, w₁))
      (hsend : exec sendMessage { impl := w₁.impl, env := send } = (.ok .freeBus, w₂)) :
      Exchanging impl lock send receive w₂.impl (w₁.events ++ w₂.events)
  | answered {w₁ w₂ w₃ : World}
      (hlock : exec lockBus { impl, env := lock } = (.ok .sendMessage, w₁))
      (hsend : exec sendMessage { impl := w₁.impl, env := send } = (.ok .receiveResponse, w₂))
      (hreceive : exec receiveResponse { impl := w₂.impl, env := receive } = (.ok .freeBus, w₃)) :
      Exchanging impl lock send receive w₃.impl (w₁.events ++ w₂.events ++ w₃.events)

/-- The stream does not start with a response that is rejected, or accepted without its CRC. -/
def Prompt (env : Env) : Prop :=
  (∀ rest, ¬ RejectedNext env.reads rest) ∧ ¬ BareNext env.reads env.sends

/-- `parse` decodes the bytes as this telegram. -/
def Agrees (tel : Telegram) (bus : List Byte) : Prop :=
  ∃ tel' seq, Telegram.ofSequence ⟨bus, true⟩ = .ok (tel', seq) ∧ tel'.isValid = true ∧
    tel'.type = tel.type ∧ tel'.master.reduce = tel.master.reduce ∧
    tel'.slave.reduce = tel.slave.reduce

/-! ### The bytes on the bus -/

theorem Echoed.bus_append {l : List Byte} {evs : List Event} (h : Echoed l evs)
    (rest : List Event) : busBytes (evs ++ rest) = l ++ busBytes rest := by
  induction h with
  | nil => rfl
  | cons b x _ ih => exact congrArg (b :: ·) ih

theorem Echoed.bus {l : List Byte} {evs : List Event} (h : Echoed l evs) : busBytes evs = l := by
  have hb := h.bus_append []
  rwa [List.append_nil, show busBytes [] = [] from rfl, List.append_nil] at hb

theorem busBytes_got_append (l : List Byte) (rest : List Event) :
    busBytes (l.map .got ++ rest) = l ++ busBytes rest := by
  induction l with
  | nil => rfl
  | cons b l ih => exact congrArg (b :: ·) ih

theorem Plain.extendBytes_append {l : List Byte} (h : Plain l) (r : List Byte) :
    extendBytes (r ++ l) = extendBytes r ++ l := by
  rw [EBusFsm.extendBytes_append, (extendBytes_eq_self_iff l).2 h]

/-- What is on the bus behind the first byte, when the target acknowledged. -/
theorem MessageSent.bus {tel : Telegram} {qq : Byte} {rest : List Byte} {evs : List Event}
    {m : Master} (h : MessageSent tel evs seqAck) (hqq : tel.master.seq = qq :: rest)
    (hpart : partBytes tel.master tel.masterCRC = wireBytes m.bytes) (more : List Event) :
    ∃ l, MasterSent m l ∧ qq :: busBytes (evs ++ more) = extendBytes l ++ busBytes more := by
  have hack : Plain [seqAck] := by decide
  have hnak : Plain [seqNak] := by decide
  have hwire : qq :: (tel.master.seq.drop 1 ++ [tel.masterCRC]) = extendBytes m.frame := by
    rw [hqq, List.drop_one, List.tail_cons, ← List.cons_append, ← hqq]
    exact hpart
  cases h with
  | @once evs _ he hne =>
    refine ⟨_, .once, ?_⟩
    rw [hack.extendBytes_append, ← hwire, List.append_assoc, he.bus_append]
    simp [busBytes]
  | @again evs evs' _ he he' =>
    refine ⟨_, .again, ?_⟩
    have hpart' : tel.master.seq ++ [tel.masterCRC] = extendBytes m.frame := hpart
    have hframes : m.frame ++ seqNak :: (m.frame ++ [seqAck]) =
        (m.frame ++ [seqNak] ++ m.frame) ++ [seqAck] := by simp
    rw [hframes, hack.extendBytes_append, extendBytes_append, hnak.extendBytes_append, List.append_assoc,
      List.append_assoc, he.bus_append]
    have hnext : busBytes (evs' ++ [.got seqAck] ++ more) =
        extendBytes m.frame ++ seqAck :: busBytes more := by
      rw [List.append_assoc, he'.bus_append, partBytes, hpart']
      rfl
    rw [← List.cons_append, hwire]
    show extendBytes m.frame ++ seqNak :: busBytes (evs' ++ [.got seqAck] ++ more) = _
    rw [hnext]
    simp

/-- A response read with its CRC decodes to its frame in front of anything. -/
theorem Response.reduce_append {raw : List Byte} {s : Slave} (hraw : Response raw)
    (hs : reduceBytes raw = s.frame) (r : List Byte) :
    reduceBytes (raw ++ r) = s.frame ++ reduceBytes r := by
  cases hraw with
  | @intro nn rest hnn hcount =>
    have hcons : reduceBytes (nn :: rest) = nn :: ebusCode.unstuffFrom false rest := by
      rw [reduceBytes_eq_unstuff]
      exact EscapeCode.unstuffFrom_false ebusCode (not_reserved_of_le hnn) rest
    have hhead : nn = s.nn := by
      rw [hcons] at hs
      exact (List.cons.inj hs).1
    -- a dropped synchronization byte would leave the frame short
    have hflag : ebusCode.flag ∉ rest := by
      have hcounted := ebusCode.length_unstuff_counted hcount false
      have hlen := congrArg List.length hs
      rw [hcons, List.length_cons, s.frame_length] at hlen
      have hnn' : nn.toNat = s.data.length := by rw [hhead, s.nn_toNat]
      exact List.count_eq_zero.1 (by omega)
    have hpending : ebusCode.pendingAfter false (nn :: rest) = false := by
      show ebusCode.pendingAfter (decide (ebusCode.Reserved nn)) rest = false
      exact ebusCode.pendingAfter_counted hcount hflag _
    rw [reduceBytes_eq_unstuff, reduceBytes_eq_unstuff] at *
    rw [EscapeCode.unstuff, EscapeCode.unstuffFrom_append, hpending]
    exact congrArg (· ++ ebusCode.unstuff r) hs

/-! ### The handlers -/

/-- The message keeps what was sent, and had no response. -/
structure Message.Sent (message message' : Message) : Prop where
  type : message'.telegram.type = message.telegram.type
  master : message'.telegram.master = message.telegram.master
  slave : message'.telegram.slave = message.telegram.slave

/-- Behind `sendMessage` the master part is on the bus, and acknowledged where there is somebody to do
so. -/
def MasterOnBus (type : TelegramType) (m : Master) (qq : Byte) (state : State) (evs : List Event) :
    Prop :=
  type = .BC ∧ state = .freeBus ∧ qq :: busBytes evs = extendBytes m.frame ∨
    type ≠ .BC ∧ state = (if type = .MM then .freeBus else .receiveResponse) ∧
      ∀ more, ∃ l, MasterSent m l ∧ qq :: busBytes (evs ++ more) = extendBytes l ++ busBytes more

theorem sendMessage_bus {impl : EbusImpl} {env : Env} {message : Message} {m : Master}
    {qq : Byte} {rest : List Byte} {w : World} {state : State}
    (hmessage : impl.activeMessage = some message) (hqq : message.telegram.master.seq = qq :: rest)
    (hpart : partBytes message.telegram.master message.telegram.masterCRC = wireBytes m.bytes)
    (hsend : exec sendMessage { impl, env } = (.ok state, w)) :
    ∃ message', w.impl.activeMessage = some message' ∧ message.Sent message' ∧
      (message'.state ≠ EBUS_ERR_TRANSMIT ∨ state = .receiveResponse →
        MasterOnBus message.telegram.type m qq state w.events) := by
  let sent : State → World → Prop := fun state w =>
    ∃ message', w.impl.activeMessage = some message' ∧ message.Sent message' ∧
      (message'.state ≠ EBUS_ERR_TRANSMIT ∨ state = .receiveResponse →
        MasterOnBus message.telegram.type m qq state w.events)
  have hwp : wp sendMessage sent (fun _ _ => True) { impl, env } := by
    refine wp_sendMessage _ _ _ hmessage ?_ ?_ ?_ fun _ _ _ _ => trivial
    · intro hbc evs w' he h hi
      refine ⟨message, by rw [hi, hmessage], ⟨rfl, rfl, rfl⟩, fun _ => .inl ⟨hbc, rfl, ?_⟩⟩
      have hevs : w'.events = evs := h.events
      rw [hevs, he.bus, hqq]
      rw [partBytes, hqq] at hpart
      exact hpart
    · intro hbc evs w' hs h hi
      refine ⟨{ message with telegram := message.telegram.setSlaveACK seqAck }, by rw [hi],
        ⟨rfl, rfl, rfl⟩, fun _ => .inr ⟨hbc, rfl, fun more => ?_⟩⟩
      have hevs : w'.events = evs := h.events
      rw [hevs]
      exact hs.bus hqq hpart more
    · intro hbc evs last w' _ _ h hi
      exact ⟨{ message with
          telegram := message.telegram.setSlaveACK last, state := EBUS_ERR_TRANSMIT }, by rw [hi],
        ⟨rfl, rfl, rfl⟩, fun hno => by simp at hno⟩
  have hsent : sent state w := wp_ok hwp hsend
  exact hsent

theorem Prompt.not_bareResponse {env : Env} (h : Prompt env) : ¬ BareResponse env := by
  rintro (hbare | ⟨rest, hrejected, -⟩)
  · exact h.2 hbare
  · exact h.1 rest hrejected

/-- `receiveResponse` on a prompt stream leaves a message that failed, or its response is on the bus. -/
theorem receiveResponse_bus {impl : EbusImpl} {env : Env} {message message' : Message} {w : World}
    (hmessage : impl.activeMessage = some message) (hprompt : Prompt env)
    (hreceive : exec receiveResponse { impl, env } = (.ok .freeBus, w))
    (hactive : w.impl.activeMessage = some message') (hzero : message'.state ≠ EBUS_ERR_TRANSMIT) :
    message'.state = message.state ∧ message'.telegram.type = message.telegram.type ∧
      message'.telegram.master = message.telegram.master ∧
      ∃ (raw : List Byte) (s : Slave), Response raw ∧ reduceBytes raw = s.frame ∧
        busBytes w.events = raw ++ [seqAck] ∧ message'.telegram.slave.reduce = ⟨s.bytes, false⟩ := by
  let answered : State → World → Prop := fun state w =>
    state = .freeBus → ∀ message', w.impl.activeMessage = some message' →
      message'.state ≠ EBUS_ERR_TRANSMIT → message'.state = message.state ∧
      message'.telegram.type = message.telegram.type ∧
      message'.telegram.master = message.telegram.master ∧
      ∃ (raw : List Byte) (s : Slave), Response raw ∧ reduceBytes raw = s.frame ∧
        busBytes w.events = raw ++ [seqAck] ∧ message'.telegram.slave.reduce = ⟨s.bytes, false⟩
  have hwp : wp receiveResponse answered (fun _ _ => True) { impl, env } := by
    refine wp_receiveResponse _ _ _ hmessage ?_ ?_ ?_ fun _ _ _ _ _ _ _ _ _ => trivial
    · exact fun _ _ _ _ _ _ _ _ _ _ _ _ hstate => nomatch hstate
    · intro evs raw s stored x w₁ w' hevs h₁ hraw ht h hi _ message' hactive _
      rw [hi] at hactive
      obtain rfl := Option.some_inj.1 hactive
      have hframe := ht.frame_of_not_bare hprompt.not_bareResponse hevs h₁ h.reads_got hraw
        (h.sends_ok (wroteBytes_map_got raw))
      have hnil : evs = [] := hevs.resolve_right fun hrejected => hprompt.1 _ (hrejected.next h₁).1
      refine ⟨rfl, rfl, rfl, raw, s, hraw, hframe, ?_, ?_⟩
      · rw [h.events, h₁.events, hnil, List.append_nil, List.nil_append, busBytes_got_append]
        rfl
      · have hstored : stored.reduce.seq = s.bytes := ht.reduce
        show stored.reduce = _
        rw [Sequence.reduce_eq, hstored]
    · intro evs evs' message₁ w₁ w' hrej h₁ _ _ _ hfailed hi _ message' hactive hne
      rw [hi] at hactive
      obtain rfl := Option.some_inj.1 hactive
      exact absurd hfailed hne
  have hanswered : answered .freeBus w := wp_ok hwp hreceive
  exact hanswered rfl message' hactive hzero

/-! ### Agreement -/

/-- The bytes of a complete telegram are decoded as it. -/
theorem agrees_of_encoded {tel : Telegram} {bus l : List Byte} {m : Master} {s : Option Slave}
    (h : Encoded l m s) (hbus : reduceBytes bus = l) (htype : tel.type = m.type)
    (hmaster : tel.master.reduce = ⟨m.bytes, false⟩)
    (hslave : tel.slave.reduce = s.elim {} fun s => ⟨s.bytes, false⟩) : Agrees tel bus := by
  obtain ⟨tel', hrun, -, haccept⟩ := Telegram.parse_spec {} ⟨bus, true⟩
  simp only [Sequence.reduce_extended, hbus] at hrun haccept
  obtain ⟨hvalid, hd⟩ := haccept m s (accepted_of_encoded h)
  refine ⟨tel', _, hrun, hvalid, hd.type.trans htype.symm, ?_, ?_⟩
  · rw [hmaster, Sequence.reduce_eq, hd.master_reduce]
  · rw [hslave]
    rcases s with _ | s
    · rw [hd.noSlave rfl]
      rfl
    · rw [Sequence.reduce_eq, hd.slave_reduce]
      rfl

/-- The telegram holds the part and no response, and its bytes on the wire are those of the part. -/
structure Sending (m : Master) (tel : Telegram) : Prop where
  qq : ∃ rest, tel.master.seq = m.qq :: rest
  part : partBytes tel.master tel.masterCRC = wireBytes m.bytes
  master : tel.master.reduce = ⟨m.bytes, false⟩
  type : tel.type = m.type
  slave : tel.slave = {}

theorem sending_of_createMaster {tel : Telegram} {seq seq' : Sequence}
    (hcreate : ({} : Telegram).createMaster seq = .ok (tel, seq')) (hstate : tel.masterState = SEQ_OK)
    (hsendable : Sendable tel.master.reduce.seq seq.reduce.seq) : ∃ m, Sending m tel := by
  obtain ⟨m, stored, ht, rfl⟩ := Telegram.createMaster_ok hcreate hstate
  obtain ⟨rest, hqq⟩ := ht.stored_eq
  have hreduce : stored.reduce = ⟨m.bytes, false⟩ := by rw [Sequence.reduce_eq, ht.reduce]
  refine ⟨m, ⟨_, hqq⟩, ht.partBytes_eq_iff.2 ?_, hreduce, rfl, rfl⟩
  rw [← ht.reduce]
  exact hsendable

section Sending

variable {m : Master} {impl : EbusImpl} {message message' : Message} {lock send receive : Env}
  {w₁ w₂ w₃ : World}

/-- An exchange without a response. -/
theorem Sending.direct (h : Sending m message.telegram) (hmessage : impl.activeMessage = some message)
    (hlock : exec lockBus { impl, env := lock } = (.ok .sendMessage, w₁))
    (hsend : exec sendMessage { impl := w₁.impl, env := send } = (.ok .freeBus, w₂))
    (hactive : w₂.impl.activeMessage = some message') (hfailed : message'.state ≠ EBUS_ERR_TRANSMIT) :
    Agrees message'.telegram (busBytes (w₁.events ++ w₂.events)) := by
  obtain ⟨rest, hqq⟩ := h.qq
  obtain ⟨hlocked, hi⟩ := lockBus_won hmessage hqq hlock
  rw [← hi] at hmessage
  obtain ⟨message₂, hactive₂, hsent, hbus⟩ := sendMessage_bus hmessage hqq h.part hsend
  obtain rfl := Option.some_inj.1 (hactive₂.symm.trans hactive)
  have htext : busBytes (w₁.events ++ w₂.events) = m.qq :: busBytes w₂.events := by
    rw [hlocked]
    rfl
  rw [htext]
  have hnone : message₂.telegram.slave.reduce = {} := by
    rw [hsent.slave, h.slave]
    rfl
  have hreduce := h.master
  rw [← hsent.master] at hreduce
  rcases hbus (.inl hfailed) with ⟨hbc, -, hwire⟩ | ⟨hbc, hfree, hwire⟩
  · rw [hwire]
    exact agrees_of_encoded (.broadcast m (h.type.symm.trans hbc)) (reduceBytes_extendBytes _)
      (hsent.type.trans h.type) hreduce hnone
  · have hmm : message.telegram.type = .MM := by
      by_contra hno
      rw [if_neg hno] at hfree
      exact nomatch hfree
    obtain ⟨l, hl, hwire⟩ := hwire []
    rw [List.append_nil, show busBytes [] = [] from rfl, List.append_nil] at hwire
    rw [hwire]
    exact agrees_of_encoded (.toMaster m (h.type.symm.trans hmm) hl) (reduceBytes_extendBytes _)
      (hsent.type.trans h.type) hreduce hnone

/-- An exchange with a response. -/
theorem Sending.answered (h : Sending m message.telegram) (hmessage : impl.activeMessage = some message)
    (hlock : exec lockBus { impl, env := lock } = (.ok .sendMessage, w₁))
    (hsend : exec sendMessage { impl := w₁.impl, env := send } = (.ok .receiveResponse, w₂))
    (hreceive : exec receiveResponse { impl := w₂.impl, env := receive } = (.ok .freeBus, w₃))
    (hprompt : message.telegram.type = .MS → Prompt receive)
    (hactive : w₃.impl.activeMessage = some message') (hfailed : message'.state ≠ EBUS_ERR_TRANSMIT) :
    Agrees message'.telegram (busBytes (w₁.events ++ w₂.events ++ w₃.events)) := by
  obtain ⟨rest, hqq⟩ := h.qq
  obtain ⟨hlocked, hi⟩ := lockBus_won hmessage hqq hlock
  rw [← hi] at hmessage
  obtain ⟨message₂, hactive₂, hsent, hbus⟩ := sendMessage_bus hmessage hqq h.part hsend
  rcases hbus (.inr rfl) with ⟨-, hstate, -⟩ | ⟨hbc, hnext, hwire⟩
  · exact nomatch hstate
  have hmm : message.telegram.type ≠ .MM := by
    intro hmm
    rw [if_pos hmm] at hnext
    exact nomatch hnext
  have hms : message.telegram.type = .MS := by
    rw [h.type] at hbc hmm ⊢
    exact (m.type_cases.resolve_left hbc).resolve_left hmm
  obtain ⟨-, htype₃, hmaster₃, raw, s, hraw, hframe, hresponse, hslave₃⟩ :=
    receiveResponse_bus hactive₂ (hprompt hms) hreceive hactive hfailed
  obtain ⟨l, hl, hwire⟩ := hwire w₃.events
  have htext : busBytes (w₁.events ++ w₂.events ++ w₃.events) = extendBytes l ++ (raw ++ [seqAck]) := by
    rw [← hresponse, ← hwire, hlocked]
    rfl
  have hreduced : reduceBytes (busBytes (w₁.events ++ w₂.events ++ w₃.events)) =
      l ++ (s.frame ++ [seqAck]) := by
    rw [htext, reduceBytes_extendBytes_append, hraw.reduce_append hframe]
    rfl
  have hreduce := h.master
  rw [← hsent.master, ← hmaster₃] at hreduce
  exact agrees_of_encoded (.toSlave m s (h.type.symm.trans hms) hl .once) hreduced
    (htype₃.trans (hsent.type.trans h.type)) hreduce hslave₃

end Sending

/-- **The parser reads from the bus the telegram that the sender holds**, if it is sendable and, for a
slave, the first response is accepted with its CRC. -/
theorem transcript_agrees {tel : Telegram} {seq seq' : Sequence} {impl impl' : EbusImpl}
    {message message' : Message} {lock send receive : Env} {evs : List Event}
    (hcreate : ({} : Telegram).createMaster seq = .ok (tel, seq')) (hstate : tel.masterState = SEQ_OK)
    (hmessage : impl.activeMessage = some message) (htel : message.telegram = tel)
    (hrun : Exchanging impl lock send receive impl' evs) (hactive : impl'.activeMessage = some message')
    (hzero : message'.state = 0) (hsendable : Sendable tel.master.reduce.seq seq.reduce.seq)
    (hprompt : tel.type = .MS → Prompt receive) : Agrees message'.telegram (busBytes evs) := by
  obtain ⟨m, hsending⟩ := sending_of_createMaster hcreate hstate hsendable
  subst htel
  have hfailed : message'.state ≠ EBUS_ERR_TRANSMIT := by
    rw [hzero]
    decide
  cases hrun with
  | direct hlock hsend => exact hsending.direct hmessage hlock hsend hactive hfailed
  | answered hlock hsend hreceive =>
    exact hsending.answered hmessage hlock hsend hreceive hprompt hactive hfailed

theorem prompt_of_frame {env : Env} {raw : List Byte} {rest : List RecvResult} {s : Slave}
    (hreads : env.reads = raw.map .byte ++ rest) (hraw : Response raw) (hl : reduceBytes raw = s.frame) :
    Prompt env := by
  refine ⟨fun rest' hrejected => ?_, fun hbare => not_bareResponse hreads hraw hl (.inl hbare)⟩
  have hno : ¬ s.Text (reduceBytes raw) ⟨extendBytes s.bytes, true⟩ := hrejected.not_text hraw hreads
  rw [hl] at hno
  exact hno .full

/-- The master part `1008b5050127`. -/
def requestMaster : Master := .ofCheck 0x10 0x08 0xb5 0x05 [0x27] (.refl true)

/-- A participant that is about to send `1008b5050127`. -/
def requestImpl : EbusImpl := sendingImpl (bareTelegram requestMaster) {}

def requestLocked : World := (exec lockBus { impl := requestImpl, env := .bytes [0x10] }).2

/-- Behind `sendMessage`, which reads the echoes and acknowledge bytes `send`. -/
def requestSent (send : List Byte) : World :=
  (exec sendMessage { impl := requestLocked.impl, env := .bytes send }).2

/-- Behind `receiveResponse`, which reads `receive`. -/
def requestAnswered (send receive : List Byte) : World :=
  (exec receiveResponse { impl := (requestSent send).impl, env := .bytes receive }).2

theorem requestLocked_eq :
    exec lockBus { impl := requestImpl, env := .bytes [0x10] } = (.ok .sendMessage, requestLocked) :=
  exec_eq_of_fst (by decide +kernel)

/-- The request is repeated after a NAK and answered by `0127`. -/
theorem transcript_agrees_sample :
    let send : List Byte := [0x08, 0xb5, 0x05, 0x01, 0x27, 0x0c, 0xff,
      0x10, 0x08, 0xb5, 0x05, 0x01, 0x27, 0x0c, 0x00]
    let w := requestAnswered send [0x01, 0x27, 0xbc, 0x00]
    ∃ message, w.impl.activeMessage = some message ∧ Agrees message.telegram
      (busBytes (requestLocked.events ++ (requestSent send).events ++ w.events)) := by
  intro send w
  have hdone : (w.impl.activeMessage.map Message.state) = some 0 := by decide +kernel
  obtain ⟨message, hactive, hzero⟩ := Option.map_eq_some_iff.1 hdone
  refine ⟨message, hactive, ?_⟩
  have hsend : exec sendMessage { impl := requestLocked.impl, env := .bytes send } =
      (.ok .receiveResponse, requestSent send) := exec_eq_of_fst (by decide +kernel)
  have hreceive : exec receiveResponse
      { impl := (requestSent send).impl, env := .bytes [0x01, 0x27, 0xbc, 0x00] } = (.ok .freeBus, w) :=
    exec_eq_of_fst (by decide +kernel)
  refine transcript_agrees (Telegram.createMaster_bare {} requestMaster (by decide)) rfl rfl rfl
    (.answered requestLocked_eq hsend hreceive) hactive hzero ⟨by decide, .inr (by decide)⟩ fun _ => ?_
  have hraw : Response [0x01, 0x27, 0xbc] :=
    .intro 0x01 (by decide) (ebusCode.counted_of_plain (l := [0x27, 0xbc]) (by decide))
  exact prompt_of_frame (s := ⟨[0x27], by decide⟩) (show _ = _ ++ [.byte 0x00] from rfl) hraw (by decide)

/-- The first response `012700` has a wrong CRC and is repeated. -/
theorem transcript_disagrees_sample :
    ¬ ∀ (tel : Telegram) (seq seq' : Sequence) (impl impl' : EbusImpl) (message message' : Message)
      (lock send receive : Env) (evs : List Event),
      ({} : Telegram).createMaster seq = .ok (tel, seq') → tel.masterState = SEQ_OK →
      impl.activeMessage = some message → message.telegram = tel →
      Exchanging impl lock send receive impl' evs → impl'.activeMessage = some message' →
      message'.state = 0 → Agrees message'.telegram (busBytes evs) := by
  intro h
  let send : List Byte := [0x08, 0xb5, 0x05, 0x01, 0x27, 0x0c, 0x00]
  let receive : List Byte := [0x01, 0x27, 0x00, 0xff, 0x01, 0x27, 0xbc, 0x00]
  let w := requestAnswered send receive
  let evs := requestLocked.events ++ (requestSent send).events ++ w.events
  have hdone : (w.impl.activeMessage.map Message.state) = some 0 := by decide +kernel
  obtain ⟨message, hactive, hzero⟩ := Option.map_eq_some_iff.1 hdone
  have hsend : exec sendMessage { impl := requestLocked.impl, env := .bytes send } =
      (.ok .receiveResponse, requestSent send) := exec_eq_of_fst (by decide +kernel)
  have hreceive : exec receiveResponse { impl := (requestSent send).impl, env := .bytes receive } =
      (.ok .freeBus, w) := exec_eq_of_fst (by decide +kernel)
  obtain ⟨tel', seq, hparse, hvalid, -⟩ := h _ _ _ _ _ _ message _ _ _ evs
    (Telegram.createMaster_bare {} requestMaster (by decide)) rfl rfl rfl
    (.answered requestLocked_eq hsend hreceive) hactive hzero
  have hno : (Telegram.ofSequence ⟨busBytes evs, true⟩).map (fun p => p.1.isValid) = .ok false := by
    decide +kernel
  rw [hparse] at hno
  have hfalse : tel'.isValid = false := Except.ok.inj hno
  rw [hvalid] at hfalse
  exact nomatch hfalse

end EBusFsm
