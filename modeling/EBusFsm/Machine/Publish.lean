import EBusFsm.Machine.Lifetime
import EBusFsm.Machine.Reception
import EBusFsm.Telegram.Decode
import EBusFsm.Telegram.Spelling

/-!
# What is published

`publish` is meant for telegrams that were exchanged successfully. `Succeeded` lists the four ways in
which the machine takes part in such an exchange: it overhears it, receives a message, answers one, or
sends one. Every part stands on the bus in its wire form there, and the echo of every byte written is that byte.
`published_backed` says that in a run whose steps are `Concluding`, every entry of the log that
publishes a pair has the exchange of this pair right before it.

The condition names what goes wrong otherwise. `reset` publishes the active message whatever became of it,
so a message that failed, or that `close`, an oversized telegram or an answer to somebody else interrupts,
is published; `sendResponse` publishes a telegram that is gone, and before it looks at the last acknowledge byte;
the defects of `parse` and of the receivers let a telegram through that was not acknowledged, not checked or not
spelled as it should be; and the senders neither escape what needs it nor look at the echo.

The invariant `Followed` says what the log ends with when a state is entered, for the telegrams that the
machine only follows; for its own it adds the echoes and the CRC of the response to `Progress`. It grants the
telegram of an answer its life (`backed_of_run`); the runs of `published_backed` do without.
-/

namespace EBusFsm

/-! ### Exchanges that succeeded -/

/-- The text starts with a complete telegram, and its last parts are acknowledged. -/
inductive Concluded : List Byte → Master → Option Slave → Prop
  | broadcast {pre rest : List Byte} {m : Master} (hpre : Lead pre) (htype : m.type = .BC) :
      Concluded (pre ++ (m.frame ++ rest)) m none
  | toMaster {pre rest : List Byte} {m : Master} (hpre : Lead pre) (htype : m.type = .MM) :
      Concluded (pre ++ (m.frame ++ seqAck :: rest)) m none
  | toSlave {pre rest : List Byte} {m : Master} {s : Slave} (hpre : Lead pre) (htype : m.type = .MS)
      (h : Confirmed rest s) : Concluded (pre ++ (m.frame ++ seqAck :: rest)) m (some s)

/-- Every byte written was read back as it was written. -/
inductive Mirrored : List Event → Prop
  | nil : Mirrored []
  | echo (b : Byte) {evs : List Event} (h : Mirrored evs) : Mirrored (.wrote b :: .got b :: evs)
  | reply (b : Byte) {evs : List Event} (h : Mirrored evs) : Mirrored (.got b :: evs)

/-- The exchange ends with the wire form of the response that the telegram holds. -/
def Responded (tel : Telegram) (ex : List Event) : Prop :=
  ∃ (before : List Event) (s : Slave) (x : Byte),
    ex = before ++ ((wireBytes s.bytes).map .got ++ [.wrote seqAck, .got x]) ∧
    tel.slave = ⟨extendBytes s.bytes, true⟩

/-- The events of a successful exchange and the pair that is published for it. -/
inductive Succeeded : List Event → List Byte → List Byte → Prop
  /-- The telegram was overheard; the synchronization byte ends it. -/
  | overheard {l : List Byte} {m : Master} {s : Option Slave} (h : Concluded l m s) :
      Succeeded ((extendBytes l).map .got ++ [.got seqSyn]) (extendBytes m.bytes)
        (s.elim [] fun s => extendBytes s.bytes)
  /-- A message to this participant, or to all, was received. -/
  | received {m : Master} {acked : List Event} (htype : m.type ≠ .MS) (hacked : Acknowledged m acked)
      (hecho : Mirrored acked) :
      Succeeded ((wireBytes m.bytes).map .got ++ acked) (extendBytes m.bytes) []
  /-- A message was received and answered. -/
  | answered {l : List Byte} {m : Master} {s : Slave} {stored : Sequence} {acked evs : List Event}
      (htype : m.type = .MS) (hacked : Acknowledged m acked) (hecho : Mirrored acked) (hs : s.Text l stored)
      (hwire : partBytes stored s.crc = wireBytes s.bytes)
      (hevs : PartSent (partBytes stored s.crc) evs seqAck) (hecho' : Mirrored evs) :
      Succeeded ((wireBytes m.bytes).map .got ++ acked ++ [.processed (extendBytes m.bytes)] ++ evs)
        (extendBytes m.bytes) stored.seq
  /-- A message was sent. -/
  | sent {l : List Byte} {m : Master} {tel : Telegram} {ex : List Event} (hm : m.Text l tel.master)
      (hcrc : tel.masterCRC = m.crc) (hwire : partBytes tel.master m.crc = wireBytes m.bytes)
      (hex : Exchanged tel ex) (hecho : Mirrored ex)
      (hresponse : tel.type = .MS → Responded tel ex) (hnone : tel.type ≠ .MS → tel.slave = {}) :
      Succeeded ex tel.master.seq tel.slave.seq

/-- A pair is published right behind its exchange. -/
def Backed (before : List Event) (e : Event) : Prop :=
  ∀ message response, e = .published message response →
    ∃ pre ex close, before = pre ++ (ex ++ close) ∧ Succeeded ex message response ∧ Quiet close ∧
      close.length ≤ 2

theorem concluded_of_accepted {l : List Byte} {m : Master} {s : Option Slave} (h : Accepted l m s)
    (hno : ¬ Unacknowledged l) : Concluded l m s := by
  have hlead : ∀ pre l' : List Byte, l = pre ++ l' → Lead pre → Exchange l' m s → Concluded l m s := by
    rintro pre l' rfl hpre hx
    rcases (exchange_iff _ _ _).1 hx with ⟨hne, rfl, rest, rfl, hnak⟩ | ⟨hms, s, rest, rfl, rfl, hans⟩
    · by_cases hbc : m.type = .BC
      · exact .broadcast hpre hbc
      · have hmm : m.type = .MM := (m.type_cases.resolve_left hbc).resolve_right hne
        rcases rest with _ | ⟨a, rest⟩
        · exact absurd ⟨pre, [], m, hpre, hmm, rfl, by simp, hnak⟩ hno
        · by_cases ha : a = seqAck
          · rw [ha]
            exact .toMaster hpre hmm
          · exact absurd ⟨pre, a :: rest, m, hpre, hmm, rfl, by simpa using ha, hnak⟩ hno
    · exact .toSlave hpre hms (confirmed_of_answer hans)
  cases h with
  | broadcast m rest htype => exact .broadcast .none htype
  | once hx => exact hlead [] l rfl .none hx
  | again first hfirst hx => exact hlead _ _ (List.append_cons _ _ _) (.again first hfirst) hx

/-! ### The condition -/

/-- The message has not failed, and its master part needed no escape that it did not have. -/
def Message.Conveyed (message : Message) : Prop :=
  message.state = 0 ∧
    ∀ (m : Master) (l : List Byte), m.Text l message.telegram.master → Sendable m.bytes l

/-- No response that `receiveResponse` meets is oversized. -/
def ResponseInBounds (env : Env) : Prop :=
  ∀ nn rest, env.reads = .byte nn :: rest ∨ RejectedNext env.reads (.byte nn :: rest) →
    nn.toNat ≤ seqMaxBytes

/-- The stream holds a message that is checked, but not spelled as `extend` spells it. -/
def RespelledMessage (impl : EbusImpl) (env : Env) : Prop :=
  ∃ (r : List Byte) (rest : List RecvResult) (m : Master), env.reads = r.map .byte ++ rest ∧
    Framed (impl.sequence.seq ++ r) ∧ reduceBytes (impl.sequence.seq ++ r) = m.frame ∧
    impl.sequence.seq ++ r ≠ wireBytes m.bytes

/-- The stream starts with such a response. -/
def RespelledNext (reads : List RecvResult) : Prop :=
  ∃ (raw : List Byte) (rest : List RecvResult) (s : Slave), reads = raw.map .byte ++ rest ∧
    Response raw ∧ reduceBytes raw = s.frame ∧ raw ≠ wireBytes s.bytes

/-- One of the two attempts of `receiveResponse` meets such a response. -/
def RespelledResponse (env : Env) : Prop :=
  RespelledNext env.reads ∨ ∃ rest, RejectedNext env.reads rest ∧ RespelledNext rest

/-- The handler of the state takes part in successful exchanges only, and publishes nothing else. -/
def Conclusive (impl : EbusImpl) (env : Env) : State → Prop
  | .monitorBus => ∀ rest, env.reads = .byte seqSyn :: rest →
      ¬ Unacknowledged impl.sequence.reduce.seq ∧ ¬ Respelled impl.sequence.seq
  | .receiveMessage => ¬ BareMessage impl env ∧ ¬ RespelledMessage impl env ∧
      ∀ pb sb nn rest, impl.activeMessage ≠ none →
        env.reads = .byte pb :: .byte sb :: .byte nn :: rest → nn.toNat ≤ seqMaxBytes
  | .sendResponse => ∀ passive evs last rest, impl.passiveMessage = some passive →
      PartSent (partBytes passive.telegram.slave passive.telegram.slaveCRC) evs last →
      env.reads = (gotBytes evs).map .byte ++ rest →
      (∀ r ∈ env.sends.take (wroteBytes evs).length, r = .ok) →
      last = seqAck ∧ impl.activeMessage = none ∧
        ∀ (s : Slave) (l : List Byte), s.Text l passive.telegram.slave → Sendable s.bytes l
  | .receiveResponse => ¬ BareResponse env ∧ ¬ RespelledResponse env ∧ ResponseInBounds env
  | .freeBus => ∀ message, impl.activeMessage = some message → message.Conveyed
  | _ => True

/-- What a handler leaves on the wire when it takes its part in an exchange to the end. -/
inductive Traffic (impl : EbusImpl) : State → List Event → Prop
  | received {r : List Byte} {m : Master} {acked : List Event} (hr : Framed (impl.sequence.seq ++ r))
      (hm : reduceBytes (impl.sequence.seq ++ r) = m.frame) (hacked : Acknowledged m acked) :
      Traffic impl .receiveMessage (r.map .got ++ acked)
  | answered {passive : Message} {evs : List Event} {last : Byte} (hpassive : impl.passiveMessage = some passive)
      (hevs : PartSent (partBytes passive.telegram.slave passive.telegram.slaveCRC) evs last) :
      Traffic impl .sendResponse evs
  | broadcast {message : Message} {evs : List Event} (hactive : impl.activeMessage = some message)
      (htype : message.telegram.type = .BC)
      (hevs : Echoed (message.telegram.master.seq.drop 1 ++ [message.telegram.masterCRC]) evs) :
      Traffic impl .sendMessage evs
  | sent {message : Message} {evs : List Event} (hactive : impl.activeMessage = some message)
      (htype : message.telegram.type ≠ .BC) (hevs : MessageSent message.telegram evs seqAck) :
      Traffic impl .sendMessage evs
  | responded {evs : List Event} {raw : List Byte} {s : Slave} (hevs : Retried evs) (hraw : Response raw)
      (hs : reduceBytes raw = s.frame) (x : Byte) :
      Traffic impl .receiveResponse (evs ++ (raw.map .got ++ [.wrote seqAck, .got x]))

/-- The bus gives every byte of this traffic back as it was written. -/
def Echoing (impl : EbusImpl) (env : Env) (state : State) : Prop :=
  ∀ evs rest, Traffic impl state evs → env.reads = (gotBytes evs).map .byte ++ rest →
    (∀ r ∈ env.sends.take (wroteBytes evs).length, r = .ok) → Mirrored evs

/-- Each handler is conclusive and its bytes come back, no device error meets a message on its way, and `close`
no message before `freeBus`. -/
structure Concluding (s : System) (a : Action) : Prop where
  conclusive : ∀ env state, a = .thread env → s.control = .loop state → Conclusive s.impl env state
  echoing : ∀ env state, a = .thread env → s.control = .loop state → Echoing s.impl env state
  device : ∀ env state, a = .thread env → s.control = .loop state →
    s.impl.activeMessage = none ∨ state = .freeBus ∨ env.Clean
  closed : ∀ state message, a = .check → s.control = .check state → s.impl.close = true →
    s.impl.activeMessage = some message → state = .freeBus ∧ message.Conveyed

/-! ### The invariant -/

/-- The log ends with the exchange of the message, with its echoes and the wire form of its response. -/
def Settled (log : List Event) (message : Message) : Prop :=
  ∃ pre ex, log = pre ++ ex ∧ Exchanged message.telegram ex ∧ Mirrored ex ∧
    (message.telegram.type = .MS → Responded message.telegram ex)

/-- The log ends with a message that was received and acknowledged. -/
def Gathered (log : List Event) (m : Master) : Prop :=
  ∃ pre acked, log = pre ++ ((wireBytes m.bytes).map .got ++ acked) ∧ Acknowledged m acked ∧ Mirrored acked

/-- What the log ends with when a state is entered. -/
def Followed (impl : EbusImpl) (log : List Event) : State → Prop
  | .monitorBus => (∃ pre, log = pre ++ impl.sequence.seq.map .got) ∧
      (impl.sequence.seq ≠ [] → impl.sequence.extended = true)
  | .receiveMessage => ∃ pre qq zz, impl.sequence = ⟨[qq, zz], true⟩ ∧ log = pre ++ [.got qq, .got zz]
  | .processMessage => ∃ m : Master, impl.sequence.reduce.seq = m.frame ∧
      (m.type = .MS → Gathered log m)
  | .sendResponse => ∃ passive log' m s l, impl.passiveMessage = some passive ∧
      log = log' ++ [.processed (extendBytes (Master.bytes m))] ∧ Gathered log' m ∧ m.type = .MS ∧
      passive.telegram.master.seq = extendBytes m.bytes ∧
      Slave.Text s l passive.telegram.slave ∧ passive.telegram.slaveCRC = s.crc
  | .lockBus => impl.sequence.seq = []
  | .receiveResponse => ∃ message qq rest pre evs, impl.activeMessage = some message ∧
      message.telegram.master.seq = qq :: rest ∧ message.telegram.type = .MS ∧
      MessageSent message.telegram evs seqAck ∧ log = pre ++ ([.wrote qq, .got qq] ++ evs) ∧ Mirrored evs
  | .freeBus => ∀ message, impl.activeMessage = some message → message.state = 0 → Settled log message
  | .idleSystem => ∀ message, impl.activeMessage = some message → Settled log message ∧ message.Conveyed
  | _ => True

/-- A telegram without a response holds none. -/
def Message.Plain (message : Message) : Prop := message.telegram.type ≠ .MS → message.telegram.slave = {}

def Control.Followed (impl : EbusImpl) (log : List Event) : Control → Prop
  | .loop state => EBusFsm.Followed impl log state ∧
      ∀ message, impl.activeMessage = some message → message.Plain
  | .check state => EBusFsm.Followed impl log state ∧
      ∀ message, impl.activeMessage = some message → message.Plain
  | .waiting => impl.activeMessage = none
  | _ => True

/-! ### What a round publishes -/

theorem Backed.of_ne {before : List Event} {e : Event}
    (h : ∀ message response, e ≠ .published message response) : Backed before e :=
  fun message response he => absurd he (h message response)

theorem justified_quiet {log evs : List Event} (h : Justified Backed log) (hevs : Quiet evs) :
    Justified Backed (log ++ evs) := by
  refine h.append fun e he before => Backed.of_ne fun message response heq => ?_
  have hwire := hevs e he
  rw [heq] at hwire
  exact nomatch hwire

/-- A message is published behind its exchange and notified. -/
theorem justified_finish {log : List Event} {message : Message} (h : Justified Backed log)
    (hbacked : Backed log (.published message.telegram.master.seq message.telegram.slave.seq)) :
    Justified Backed (log ++ finish message) := by
  show Justified Backed (log ++ [_, _])
  rw [List.append_cons]
  exact (h.snoc hbacked).snoc (Backed.of_ne nofun)

/-- What `reset` leaves is backed, if the active message is. -/
theorem justified_reset {log : List Event} {active : Option Message} (h : Justified Backed log)
    (hbacked : ∀ message, active = some message →
      Backed log (.published message.telegram.master.seq message.telegram.slave.seq)) :
    Justified Backed (log ++ resetEvents active) := by
  rcases active with _ | message
  · rw [resetEvents, List.append_nil]
    exact h
  · exact justified_finish h (hbacked message rfl)

theorem backed_of_succeeded {log ex : List Event} {message response : List Byte}
    (h : Succeeded ex message response) (pre : List Event) (hlog : log = pre ++ ex) :
    Backed log (.published message response) := by
  rintro _ _ ⟨⟩
  exact ⟨pre, ex, [], by rw [hlog, List.append_nil], h, quiet_nil, Nat.zero_le _⟩

/-- The active message of a call is backed, when its exchange was the last thing on the bus. -/
theorem Settled.backed {address : Byte} {request : List Byte} {log close : List Event}
    {message : Message} (h : Settled log message) (hconveyed : message.Conveyed)
    (hcarries : message.Carries address request) (hplain : message.Plain) (hclose : Quiet close)
    (hlen : close.length ≤ 2) :
    Backed (log ++ close) (.published message.telegram.master.seq message.telegram.slave.seq) := by
  rintro _ _ ⟨⟩
  obtain ⟨m, hm, -, hcrc⟩ := hcarries
  obtain ⟨pre, ex, rfl, hex, hecho, hresponse⟩ := h
  have hwire := hm.partBytes_eq_iff.2 (hconveyed.2 m _ hm)
  exact ⟨pre, ex, close, List.append_assoc _ _ _, .sent hm hcrc hwire hex hecho hresponse hplain, hclose, hlen⟩

/-! ### Wire forms -/

theorem Mirrored.append {evs evs' : List Event} (h : Mirrored evs) (h' : Mirrored evs') :
    Mirrored (evs ++ evs') := by
  induction h with
  | nil => exact h'
  | echo b _ ih => exact .echo b ih
  | reply b _ ih => exact .reply b ih

/-- With the traffic of a round its echoes come back. -/
theorem Echoing.mirrored {impl : EbusImpl} {env : Env} {state : State} {evs : List Event} {w : World}
    (h : Echoing impl env state) (hevs : Traffic impl state evs) (ha : Adv { impl, env } w evs) : Mirrored evs :=
  h evs _ hevs ha.reads ha.sent

/-- A part of the bytes read comes before what is written. -/
theorem mirrored_of_append {l : List Byte} {evs : List Event} (h : Mirrored (l.map .got ++ evs)) :
    Mirrored evs := by
  induction l with
  | nil => exact h
  | cons b l ih =>
    cases h with
    | reply b h => exact ih h

/-- A message that is checked stands on the bus in its wire form, unless it is spelled otherwise. -/
theorem eq_wireBytes_of_received {impl : EbusImpl} {env : Env} {qq zz : Byte} {r : List Byte}
    {rest : List RecvResult} {m : Master} (hno : ¬ RespelledMessage impl env)
    (hseq : impl.sequence = ⟨[qq, zz], true⟩) (hreads : env.reads = r.map .byte ++ rest)
    (hr : Framed (qq :: zz :: r)) (hm : reduceBytes (qq :: zz :: r) = m.frame) :
    qq :: zz :: r = wireBytes m.bytes := by
  by_contra hne
  refine hno ⟨r, rest, m, hreads, ?_, ?_, ?_⟩ <;> rw [hseq]
  · exact hr
  · exact hm
  · exact hne

/-- A response that is checked stands on the bus in its wire form, unless it is spelled otherwise. -/
theorem eq_wireBytes_of_responded {w w₁ : World} {evs : List Event} {raw : List Byte}
    {rest : List RecvResult} {s : Slave} (hno : ¬ RespelledResponse w.env) (hevs : Retried evs)
    (h₁ : Adv w w₁ evs) (hreads : w₁.env.reads = raw.map .byte ++ rest) (hraw : Response raw)
    (hs : reduceBytes raw = s.frame) : raw = wireBytes s.bytes := by
  by_contra hne
  have hnext : RespelledNext w₁.env.reads := ⟨raw, rest, s, hreads, hraw, hs, hne⟩
  rcases hevs with rfl | hrejected
  · exact hno (.inl (h₁.reads ▸ hnext))
  · exact hno (.inr ⟨_, (hrejected.next h₁).1, hnext⟩)

section Round

variable {address : Byte} {impl impl' : EbusImpl} {env : Env} {state : State}
  {result : Except Stop State} {evs log : List Event}

theorem shell_active_none {impl impl' : EbusImpl} (h : impl'.shell = impl.shell)
    (hnone : impl.activeMessage = none) : impl'.activeMessage = none := by
  have hactive := shell_activeMessage h
  rw [hnone, Option.map_none, Option.map_eq_none_iff] at hactive
  exact hactive

theorem Overheard.backed {seq : Sequence} {pre evs : List Event} (h : Overheard seq evs)
    (hext : seq.seq ≠ [] → seq.extended = true) (hno : ¬ Unacknowledged seq.reduce.seq)
    (hspelled : ¬ Respelled seq.seq)
    (hlog : Justified Backed (pre ++ seq.seq.map Event.got ++ [Event.got seqSyn])) :
    Justified Backed (pre ++ seq.seq.map Event.got ++ [Event.got seqSyn] ++ evs) := by
  cases h with
  | nothing =>
    rw [List.append_nil]
    exact hlog
  | telegram tel hseq htel hvalid =>
    obtain ⟨tel', hrun, haccepted, -⟩ := Telegram.parse_spec {} seq
    obtain ⟨rfl, -⟩ := Prod.mk.injEq .. ▸ Except.ok.inj (htel.symm.trans hrun)
    obtain ⟨m, s, ha, hd⟩ := haccepted hvalid
    have hconcluded := concluded_of_accepted ha hno
    obtain ⟨raw, flag⟩ := seq
    obtain rfl : flag = true := hext hseq
    have hraw : raw = extendBytes (reduceBytes raw) := by
      by_contra hne
      exact hspelled ⟨_, m, s, ha, (spells_iff_reduceBytes raw _).2 rfl, hne⟩
    have hsucceeded : Succeeded (raw.map .got ++ [.got seqSyn]) tel.master.seq tel.slave.seq := by
      have hs := Succeeded.overheard hconcluded
      rw [Sequence.reduce_extended, ← hraw] at hs
      rw [hd.master]
      rcases s with _ | s
      · rw [hd.noSlave rfl]
        exact hs
      · rw [(hd.slave s rfl).1]
        exact hs
    exact hlog.snoc (backed_of_succeeded hsucceeded pre (List.append_assoc _ _ _))

theorem receivedEvents_ne {m : Master} (stored : Sequence) (htype : m.type ≠ .MS) :
    receivedEvents m stored = [.published stored.seq []] := if_pos htype

theorem receivedEvents_MS {m : Master} (stored : Sequence) (htype : m.type = .MS) :
    receivedEvents m stored = [] := if_neg (not_not.2 htype)

theorem justified_processEvents (hlog : Justified Backed log) (stored : Sequence) :
    Justified Backed (log ++ processEvents impl stored) := by
  refine hlog.append fun e he before => Backed.of_ne ?_
  unfold processEvents at he
  split_ifs at he
  · obtain rfl := List.mem_singleton.1 he
    nofun
  · exact absurd he List.not_mem_nil

/-- An oversized response is no response within bounds. -/
theorem ResponseInBounds.le {w w₁ w' : World} {evs : List Event} {nn : Byte}
    (h : ResponseInBounds w.env) (hevs : Retried evs) (h₁ : Adv w w₁ evs) (h₂ : Adv w₁ w' [.got nn]) :
    nn.toNat ≤ seqMaxBytes := by
  have hreads : w₁.env.reads = .byte nn :: w'.env.reads := h₂.reads
  rcases hevs with rfl | hrejected
  · refine h nn w'.env.reads (.inl ?_)
    rw [← hreads]
    exact h₁.reads
  · refine h nn w'.env.reads (.inr ?_)
    rw [← hreads]
    exact (hrejected.next h₁).1

/-- The echo of the acknowledge byte comes back. -/
theorem Echoing.acknowledged (h : Echoing impl env .receiveMessage) {qq zz : Byte} {r : List Byte} {m : Master}
    {acked : List Event} {w : World} (hseq : impl.sequence = ⟨[qq, zz], true⟩) (hr : Framed (qq :: zz :: r))
    (hm : reduceBytes (qq :: zz :: r) = m.frame) (hacked : Acknowledged m acked)
    (ha : Adv { impl, env } w (r.map .got ++ acked)) : Mirrored acked := by
  have hpre : impl.sequence.seq = [qq, zz] := by rw [hseq]
  refine mirrored_of_append (h.mirrored (.received ?_ ?_ hacked) ha) <;> rw [hpre]
  · exact hr
  · exact hm

/-- What a conclusive round publishes is backed. -/
theorem Handled.justified (h : Handled impl env state result impl' evs) (hlog : Justified Backed log)
    (hprogress : Progress impl log state) (hfollowed : Followed impl log state)
    (hplain : ∀ message, impl.activeMessage = some message → message.Plain)
    (hcarries : ∀ message, impl.activeMessage = some message →
      ∃ request, message.Carries address request)
    (hconclusive : Conclusive impl env state) (hechoing : Echoing impl env state)
    (hdevice : impl.activeMessage = none ∨ state = .freeBus ∨ env.Clean) :
    Justified Backed (log ++ evs) := by
  have hbacked : ∀ {close : List Event} {message : Message}, impl.activeMessage = some message →
      Settled log message → message.Conveyed → Quiet close → close.length ≤ 2 →
      Backed (log ++ close) (.published message.telegram.master.seq message.telegram.slave.seq) := by
    intro close message hactive hsettled hconveyed hclose hlen
    obtain ⟨request, hc⟩ := hcarries message hactive
    exact hsettled.backed hconveyed hc (hplain message hactive) hclose hlen
  cases h with
  | idle =>
    refine justified_reset hlog fun message hactive => ?_
    obtain ⟨hsettled, hconveyed⟩ := hfollowed message hactive
    have hb := hbacked hactive hsettled hconveyed quiet_nil (Nat.zero_le _)
    rwa [List.append_nil] at hb
  | opened _ h =>
    have hnone : impl.activeMessage = none := hprogress
    rw [hnone, resetEvents, List.append_nil]
    exact justified_quiet hlog h.quiet
  | collected _ _ h => exact justified_quiet hlog h.quiet
  | addressed _ h => exact justified_quiet hlog h.quiet
  | synced h _ hevs =>
    obtain ⟨⟨pre, rfl⟩, hext⟩ := hfollowed
    obtain ⟨hno, hspelled⟩ := hconclusive _ h.reads
    rw [List.append_cons]
    exact hevs.backed hext hno hspelled (justified_quiet hlog h.quiet)
  | oversizeAlone _ h => exact justified_quiet hlog h.quiet
  | misread _ _ h => exact justified_quiet hlog h.quiet
  | oversize hnn h hactive =>
    have hle := hconclusive.2.2 _ _ _ _ (by rw [hactive]; exact Option.some_ne_none _) h.reads
    exact absurd hnn (Nat.not_lt_of_ge hle)
  | @received qq zz r m stored seq acked w hseq hr ht hacked h hred =>
    obtain ⟨pre, qq', zz', hseq', rfl⟩ := hfollowed
    obtain ⟨rfl, rfl⟩ : qq = qq' ∧ zz = zz' := by simpa using hseq.symm.trans hseq'
    have hframe := ht.frame_of_not_bare hseq hconclusive.1 h.reads_got hr (hacked.sendable h)
    obtain ⟨-, rfl⟩ := ht.eq_of_frame hframe
    rw [← List.append_assoc]
    have hquiet := justified_quiet hlog h.quiet
    by_cases htype : m.type = .MS
    · rw [receivedEvents_MS _ htype, List.append_nil]
      exact hquiet
    · have hwire := eq_wireBytes_of_received hconclusive.2.1 hseq h.reads_got hr hframe
      have hecho := hechoing.acknowledged hseq hr hframe hacked h
      rw [receivedEvents_ne _ htype]
      refine hquiet.snoc (backed_of_succeeded (.received htype hacked hecho) pre ?_)
      rw [← hwire]
      simp
  | refused _ _ _ h => exact justified_quiet hlog h.quiet
  | answer => exact justified_processEvents hlog _
  | drop => exact justified_processEvents hlog _
  | @responded passive evs last w hpassive hevs h =>
    obtain ⟨rfl, hnone, hsendable⟩ := hconclusive passive evs last _ hpassive hevs h.reads h.sent
    have hecho := hechoing.mirrored (.answered hpassive hevs) h
    obtain ⟨passive', log', m, s, l, hpassive', rfl, hgathered, htype, hmaster, hs, hcrc⟩ := hfollowed
    obtain rfl := Option.some_inj.1 (hpassive.symm.trans hpassive')
    obtain ⟨pre, acked, rfl, hacked, hacked'⟩ := hgathered
    have hwire := hs.partBytes_eq_iff.2 (hsendable s l hs)
    rw [hnone, resetEvents, List.append_cons, List.append_nil, ← List.append_assoc]
    refine (justified_quiet hlog h.quiet).snoc ?_
    rw [hcrc] at hevs
    rw [hmaster]
    refine backed_of_succeeded (.answered htype hacked hacked' hs hwire hevs hecho) pre ?_
    simp
  | won _ _ h => exact justified_quiet hlog h.quiet
  | lost _ _ _ h => exact justified_quiet hlog h.quiet
  | broadcast _ _ _ h => exact justified_quiet hlog h.quiet
  | acked _ _ _ h => exact justified_quiet hlog h.quiet
  | unacked _ _ h => exact justified_quiet hlog h.quiet
  | responseOversize _ hevs h hnn h' =>
    exact absurd hnn (Nat.not_lt_of_ge (hconclusive.2.2.le hevs h h'))
  | accepted _ _ h _ _ h' => exact justified_quiet hlog (h.trans h').quiet
  | rejected _ h => exact justified_quiet hlog h.quiet
  | @freed x w h =>
    show Justified Backed (log ++ ([.wrote seqSyn, .got x] ++ resetEvents impl.activeMessage))
    rw [← List.append_assoc]
    refine justified_reset (justified_quiet hlog h.quiet) fun message hactive => ?_
    have hconveyed := hconclusive message hactive
    exact hbacked hactive (hfollowed message hactive hconveyed.1) hconveyed h.quiet le_rfl
  | unopened =>
    have hnone : impl.activeMessage = none := hprogress
    rw [hnone, Option.map_none, resetEvents, List.append_nil]
    exact hlog
  | @device _ e evs w h he hfree =>
    rw [← List.append_assoc]
    refine justified_reset (justified_quiet hlog h.quiet) fun message hmessage => ?_
    obtain ⟨message₀, hactive₀, rfl⟩ := Option.map_eq_some_iff.1 hmessage
    rcases hdevice with hnone | rfl | hclean
    · rw [shell_active_none h.shell hnone] at hactive₀
      cases hactive₀
    · obtain ⟨hevs, hsame⟩ := hfree rfl
      rw [hsame] at hactive₀
      have hlen : evs.length ≤ 2 := by
        rcases hevs with rfl | rfl
        · exact Nat.zero_le _
        · exact Nat.le_succ 1
      have hconveyed := hconclusive message₀ hactive₀
      have hb := @hbacked evs message₀ hactive₀ (hfollowed message₀ hactive₀ hconveyed.1) hconveyed h.quiet hlen
      exact hb
    · refine absurd hclean (h.fault ?_)
      rcases he with rfl | rfl <;> decide
  | hung h => exact justified_quiet hlog h.quiet

/-- Nothing was read since the last telegram. -/
theorem followed_of_nil (h : impl.sequence.seq = []) : Followed impl log .monitorBus := by
  refine ⟨⟨log, ?_⟩, absurd h⟩
  rw [h, List.map_nil, List.append_nil]

/-- A telegram without a response is settled behind its exchange. -/
theorem followed_of_exchanged {message : Message} {pre ex : List Event} (hactive : impl.activeMessage = some message)
    (hex : Exchanged message.telegram ex) (hecho : Mirrored ex) (htype : message.telegram.type ≠ .MS) :
    Followed impl (pre ++ ex) .freeBus := by
  intro message' hactive' _
  obtain rfl := Option.some_inj.1 (hactive.symm.trans hactive')
  exact ⟨pre, ex, rfl, hex, hecho, fun hms => absurd hms htype⟩

/-- A message that failed needs no exchange. -/
theorem followed_of_failed {message : Message} (hactive : impl.activeMessage = some message)
    (hfailed : message.state = EBUS_ERR_TRANSMIT) : Followed impl log .freeBus := by
  intro message' hactive' hzero
  obtain rfl := Option.some_inj.1 (hactive.symm.trans hactive')
  rw [hfailed] at hzero
  exact absurd hzero (by decide)

/-- The next state is entered with the log it asks for. -/
theorem Handled.followed (h : Handled impl env state result impl' evs)
    (hprogress : Progress impl log state) (hfollowed : Followed impl log state)
    (htype : ∀ message, impl.activeMessage = some message → message.telegram.type ≠ .undefined)
    (hplain : ∀ message, impl.activeMessage = some message → message.Plain)
    (hqueue : ∀ message ∈ impl.messageQueue, message.Plain)
    (hconclusive : Conclusive impl env state) (hechoing : Echoing impl env state) :
    (Control.after result).Followed impl' (log ++ evs) := by
  have hnone : ∀ message : Message, none = some message → message.Plain := nofun
  cases h with
  | idle hresult =>
    rcases hresult with ⟨-, rfl⟩ | ⟨-, rfl⟩
    · exact ⟨trivial, hnone⟩
    · rfl
  | opened => exact ⟨followed_of_nil rfl, hnone⟩
  | @collected b w hb hno h =>
    obtain ⟨⟨pre, rfl⟩, hext⟩ := hfollowed
    refine ⟨⟨⟨pre, ?_⟩, fun _ => rfl⟩, hplain⟩
    rw [Sequence.pushBack_seq, List.map_append, List.append_assoc]
    rfl
  | @addressed qq zz w hzz h hseq haddr =>
    obtain ⟨⟨pre, rfl⟩, hext⟩ := hfollowed
    refine ⟨⟨pre, qq, zz, rfl, ?_⟩, hplain⟩
    rw [hseq, List.append_assoc]
    rfl
  | @synced active queue evs seq w h hqueued hevs hseq =>
    refine ⟨?_, fun message hactive => ?_⟩
    · split_ifs
      · exact hseq
      · exact followed_of_nil hseq
    · have hmem : message ∈ impl.held :=
        held_of_dequeued hqueued (List.mem_append_left _ (Option.mem_toList.2 hactive))
      rcases List.mem_append.1 hmem with hm | hm
      · exact hplain message (Option.mem_toList.1 hm)
      · exact hqueue message hm
  | oversizeAlone | misread => trivial
  | oversize => exact ⟨followed_of_nil rfl, hnone⟩
  | @received qq zz r m stored seq acked w hseq hr ht hacked h hred =>
    obtain ⟨pre, qq', zz', hseq', rfl⟩ := hfollowed
    obtain ⟨rfl, rfl⟩ : qq = qq' ∧ zz = zz' := by simpa using hseq.symm.trans hseq'
    have hframe := ht.frame_of_not_bare hseq hconclusive.1 h.reads_got hr (hacked.sendable h)
    have hwire := eq_wireBytes_of_received hconclusive.2.1 hseq h.reads_got hr hframe
    have hecho := hechoing.acknowledged hseq hr hframe hacked h
    refine ⟨⟨m, hred.trans hframe, fun hms => ⟨pre, acked, ?_, hacked, hecho⟩⟩, hplain⟩
    rw [receivedEvents_MS stored hms, ← hwire]
    simp
  | refused => exact ⟨followed_of_nil rfl, hplain⟩
  | @answer m s stored storedSlave seq ht hms hprocessing hs =>
    obtain ⟨m', hframe, hgathered⟩ := hfollowed
    obtain ⟨rfl, rfl⟩ := ht.eq_of_frame hframe
    refine ⟨⟨_, log, m, s, _, rfl, ?_, hgathered hms, hms, rfl, hs, rfl⟩, hplain⟩
    unfold processEvents
    rw [if_pos hprocessing]
  | drop => exact ⟨followed_of_nil rfl, hplain⟩
  | responded => exact ⟨followed_of_nil rfl, hnone⟩
  | won => exact ⟨trivial, hplain⟩
  | lost => exact ⟨followed_of_nil hfollowed, hplain⟩
  | @broadcast message₀ evs _ hactive hbc hevs h =>
    have hecho := hechoing.mirrored (.broadcast hactive hbc hevs) h
    obtain ⟨message, qq, rest, pre, hactive', hqq, rfl⟩ := hprogress
    obtain rfl := Option.some_inj.1 (hactive.symm.trans hactive')
    rw [List.append_assoc]
    refine ⟨followed_of_exchanged hactive (.broadcast hqq hbc hevs) (.echo qq hecho) ?_, hplain⟩
    rw [hbc]
    decide
  | @acked message₀ evs _ hactive hbc hevs h =>
    have hecho := hechoing.mirrored (.sent hactive hbc hevs) h
    obtain ⟨message, qq, rest, pre, hactive', hqq, rfl⟩ := hprogress
    obtain rfl := Option.some_inj.1 (hactive.symm.trans hactive')
    have hsent : MessageSent (message₀.telegram.setSlaveACK seqAck) evs seqAck := hevs.congr rfl rfl
    rw [List.append_assoc]
    refine ⟨?_, fun message hm => ?_⟩
    · by_cases hmm : message₀.telegram.type = .MM
      · rw [if_pos hmm]
        have hqq' : (message₀.telegram.setSlaveACK seqAck).master.seq = qq :: rest := hqq
        have hmm' : (message₀.telegram.setSlaveACK seqAck).type = .MM := hmm
        refine followed_of_exchanged rfl (.toMaster hqq' hmm' hsent) (.echo qq hecho) ?_
        show message₀.telegram.type ≠ .MS
        rw [hmm]
        decide
      · rw [if_neg hmm]
        have hms : message₀.telegram.type = .MS := by
          have hne := htype _ hactive
          cases ht : message₀.telegram.type <;> simp_all
        exact ⟨_, qq, rest, pre, evs, rfl, hqq, hms, hsent, rfl, hecho⟩
    · obtain rfl := Option.some_inj.1 hm
      exact hplain message₀ hactive
  | @unacked message₀ _ _ _ hactive =>
    refine ⟨followed_of_failed rfl rfl, fun message hm => ?_⟩
    obtain rfl := Option.some_inj.1 hm
    exact hplain message₀ hactive
  | responseOversize => exact ⟨followed_of_nil rfl, hnone⟩
  | @accepted message₀ evs' raw s stored x w w' hactive hretried h hraw ht h' =>
    obtain ⟨message, qq, rest, pre, evs, hactive', hqq, hms, hsent, rfl, hecho⟩ := hfollowed
    obtain rfl := Option.some_inj.1 (hactive.symm.trans hactive')
    refine ⟨fun message hm _ => ?_, fun message hm hne => ?_⟩
    · obtain rfl := Option.some_inj.1 hm
      have hframe := ht.frame_of_not_bare hconclusive.1 hretried h h'.reads_got hraw
        (h'.sends_ok (wroteBytes_map_got raw))
      have hwire := eq_wireBytes_of_responded hconclusive.2.1 hretried h h'.reads_got hraw hframe
      have hecho' := hechoing.mirrored (.responded hretried hraw hframe x) (h.trans h')
      refine ⟨pre, _, List.append_assoc _ _ _, hsent.exchanged hqq hms hretried hraw ht x,
        (Mirrored.echo qq hecho).append hecho', fun _ => ⟨[.wrote qq, .got qq] ++ evs ++ evs', s, x, ?_, ?_⟩⟩
      · rw [← hwire, List.append_assoc _ evs']
      · exact (ht.eq_of_frame hframe).2
    · obtain rfl := Option.some_inj.1 hm
      exact absurd hms hne
  | @rejected message₀ message' _ _ hactive h hcore hfailed =>
    have hms := Progress.type_MS hprogress hactive
    refine ⟨followed_of_failed rfl hfailed, fun message hm hne => ?_⟩
    obtain rfl := Option.some_inj.1 hm
    have htype' : message'.telegram.type = message₀.telegram.type :=
      congrArg (fun message => message.telegram.type) hcore
    exact absurd (htype'.trans hms) hne
  | freed => exact ⟨followed_of_nil rfl, hnone⟩
  | unopened => exact ⟨trivial, hnone⟩
  | device h he =>
    rcases he with rfl | rfl
    · exact ⟨followed_of_nil rfl, hnone⟩
    · exact ⟨trivial, hnone⟩
  | hung => trivial

end Round

/-! ### Runs -/

structure Publishing (s : System) : Prop where
  backed : Justified Backed s.log
  progress : s.control.Progress s.impl s.log
  followed : s.control.Followed s.impl s.log
  entering : ∀ message ∈ s.entering, message.Plain
  queue : ∀ message ∈ s.impl.messageQueue, message.Plain

theorem Followed.setting {impl impl' : EbusImpl} {log : List Event} {state : State}
    (hsequence : impl'.sequence = impl.sequence) (hactive : impl'.activeMessage = impl.activeMessage)
    (hpassive : impl'.passiveMessage = impl.passiveMessage) (h : Followed impl log state) :
    Followed impl' log state := by
  cases state <;> simp only [Followed, hsequence, hactive, hpassive] at h ⊢ <;> exact h

theorem Control.Followed.setting {impl impl' : EbusImpl} {log : List Event} {control : Control}
    (hsequence : impl'.sequence = impl.sequence) (hactive : impl'.activeMessage = impl.activeMessage)
    (hpassive : impl'.passiveMessage = impl.passiveMessage) (h : control.Followed impl log) :
    control.Followed impl' log := by
  cases control with
  | loop state => exact ⟨h.1.setting hsequence hactive hpassive, by rw [hactive]; exact h.2⟩
  | check state => exact ⟨h.1.setting hsequence hactive hpassive, by rw [hactive]; exact h.2⟩
  | waiting => exact hactive.trans h
  | _ => trivial

/-- A round takes messages from the queue and adds none. -/
theorem Handled.messageQueue {impl impl' : EbusImpl} {env : Env} {state : State}
    {result : Except Stop State} {evs : List Event} (h : Handled impl env state result impl' evs)
    {message : Message} (hm : message ∈ impl'.messageQueue) : message ∈ impl.messageQueue := by
  cases h with
  | synced h hqueued =>
    cases hqueued with
    | keep => exact hm
    | take first queue hactive hqueue =>
      rw [hqueue]
      exact List.mem_cons_of_mem first hm
  | oversizeAlone _ h =>
    rw [← shell_messageQueue h.shell]
    exact hm
  | misread _ _ h =>
    rw [← shell_messageQueue h.shell]
    exact hm
  | device h =>
    rw [← shell_messageQueue h.shell]
    exact hm
  | hung h =>
    rw [← shell_messageQueue h.shell]
    exact hm
  | _ => exact hm

/-- A conclusive step keeps the invariant. -/
theorem Publishing.step {address : Byte} {s s' : System} {a : Action} (hsound : Sound address s)
    (h : Publishing s) (hguard : Concluding s a) (hstep : s.step a = some s') : Publishing s' := by
  obtain ⟨hbacked, hprogress, hfollowed, hentering, hqueue⟩ := h
  have hclosing : ∀ state, a = .check → s.control = .check state → s.impl.close = true →
      s.impl.Pending → state = .freeBus := by
    rintro state ha hstate hclose ⟨message, hactive, -⟩
    exact (hguard.closed state message ha hstate hclose hactive).1
  have hnext := progress_step hsound hprogress hclosing hstep
  cases stepped hsound.control hstep with
  | setting => exact ⟨hbacked, hnext, hfollowed.setting rfl rfl rfl, hentering, hqueue⟩
  | failed | awoken => exact ⟨hbacked, hnext, hfollowed, hentering, hqueue⟩
  | called ht htel =>
    refine ⟨hbacked, hnext, hfollowed, fun message hm => ?_, hqueue⟩
    rcases List.mem_cons.1 hm with rfl | hm
    · intro _
      rw [htel]
      rfl
    · exact hentering message hm
  | enqueued hmessage =>
    refine ⟨hbacked, hnext, hfollowed.setting rfl rfl rfl,
      fun message hm => hentering message (List.mem_of_mem_erase hm), fun message hm => ?_⟩
    rcases List.mem_append.1 hm with hm | hm
    · exact hqueue message hm
    · obtain rfl := List.mem_singleton.1 hm
      exact hentering message hmessage
  | stopped => exact ⟨hbacked, hnext, trivial, hentering, hqueue⟩
  | @thread state env _ _ _ hstate hh =>
    rw [hstate] at hprogress hfollowed
    have hconclusive := hguard.conclusive env state rfl hstate
    have hechoing := hguard.echoing env state rfl hstate
    have hcarries : ∀ message, s.impl.activeMessage = some message →
        ∃ request, message.Carries address request := by
      intro message hactive
      refine hsound.carries message (mem_messages_of_held (List.mem_append_left _ ?_))
      exact Option.mem_toList.2 hactive
    exact ⟨hh.justified hbacked hprogress hfollowed.1 hfollowed.2 hcarries hconclusive hechoing
        (hguard.device env state rfl hstate),
      hnext,
      hh.followed hprogress hfollowed.1 (fun message => hsound.type_ne_undefined) hfollowed.2 hqueue
        hconclusive hechoing,
      hentering, fun message hm => hqueue message (hh.messageQueue hm)⟩
  | @check state hstate =>
    rw [hstate] at hfollowed
    refine ⟨hbacked, hnext, ⟨?_, hfollowed.2⟩, hentering, hqueue⟩
    show Followed _ _ (if s.impl.close then .idleSystem else state)
    split_ifs with hclose
    · intro message hactive
      obtain ⟨rfl, hconveyed⟩ := hguard.closed state message rfl hstate hclose hactive
      exact ⟨hfollowed.1 message hactive hconveyed.1, hconveyed⟩
    · exact hfollowed.1
  | wake hwait =>
    rw [hwait] at hfollowed
    refine ⟨hbacked, hnext, ⟨trivial, fun message hactive => ?_⟩, hentering, hqueue⟩
    rw [show s.impl.activeMessage = none from hfollowed] at hactive
    exact nomatch hactive

/-- A test for `Message.Conveyed`. -/
def Message.conveyed (message : Message) : Bool :=
  let part := message.telegram.master.reduce.seq
  message.state = 0 && partBytes message.telegram.master (crcOf part) = wireBytes part

/-- A clean step of the active side that sends a broadcast, with nothing overheard and nothing failed. -/
def sending (s : System) : Action → Bool
  | .thread env =>
    env.clean &&
      match s.control with
      | .loop .monitorBus => s.impl.sequence.seq.isEmpty
      | .loop .receiveMessage => false
      | .loop .sendResponse => false
      | .loop .sendMessage =>
        s.impl.activeMessage.all fun message => message.telegram.type = .BC &&
          env.reads = (message.telegram.master.seq.drop 1 ++ [message.telegram.masterCRC]).map .byte
      | .loop .receiveResponse => false
      | .loop .freeBus => s.impl.activeMessage.all Message.conveyed
      | _ => true
  | .check => !s.impl.close
  | _ => true

theorem not_unacknowledged_nil : ¬ Unacknowledged [] := by
  rintro ⟨pre, rest, m, -, -, hl, -, -⟩
  have hlen := congrArg List.length hl
  rw [List.length_append, List.length_append, m.frame_length, List.length_nil] at hlen
  omega

/-- The echoes are those of the bytes written. -/
theorem Echoed.mirrored {l : List Byte} {evs : List Event} (h : Echoed l evs) (hgot : gotBytes evs = l) :
    Mirrored evs := by
  induction h with
  | nil => exact .nil
  | cons b x _ ih =>
    obtain ⟨rfl, hrest⟩ := List.cons.inj hgot
    exact .echo _ (ih hrest)

theorem Concluded.length_le {l : List Byte} {m : Master} {s : Option Slave} (h : Concluded l m s) :
    6 ≤ l.length := by
  have hframe := m.frame_length
  cases h <;> simp only [List.length_append] <;> omega

/-- An exchange in which nothing is written has the bytes of a message. -/
theorem Succeeded.length_le {ex : List Event} {message response : List Byte}
    (h : Succeeded ex message response) (hsilent : wroteBytes ex = []) : 6 ≤ ex.length := by
  have hextend : ∀ l : List Byte, l.length ≤ (extendBytes l).length := by
    intro l
    rw [extendBytes_eq_stuff]
    exact ebusCode.length_le_length_stuff l
  have hwire : ∀ m : Master, 6 ≤ (wireBytes m.bytes).length := by
    intro m
    have hle := hextend m.frame
    rw [m.frame_length] at hle
    exact (Nat.le_add_right 6 _).trans hle
  cases h with
  | @overheard l m s hconcluded =>
    have hlen := hconcluded.length_le
    have hle := hextend l
    simp only [List.length_append, List.length_map, List.length_singleton]
    omega
  | @received m acked =>
    have hle := hwire m
    simp only [List.length_append, List.length_map]
    omega
  | @answered l m =>
    have hle := hwire m
    simp only [List.length_append, List.length_map]
    omega
  | sent hm hcrc hwire hex => exact absurd hsilent hex.wroteBytes_ne_nil

end EBusFsm
