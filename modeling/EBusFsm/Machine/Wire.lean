import EBusFsm.Machine.Spec

/-!
# The bytes that a part puts on the bus

On the bus a part is its bytes and their CRC, both escaped (`wireBytes`). `sendMessage` and
`sendResponse` write the stored form of the part and the CRC byte as they are, so what they write is
that only when nothing had to be escaped that the stored form leaves plain: `Sendable`. `wire_iff` says
so for every run of the two senders.

The acknowledge bytes of a run are the bytes read that are no echo of a byte written (`replyBytes`).
-/

namespace EBusFsm

open Prog

/-- A part on the bus: its bytes and their CRC, escaped. -/
def wireBytes (part : List Byte) : List Byte := extendBytes (part ++ [crcOf part])

/-- The bytes read that are no echo of a byte written. -/
def replyBytes : List Event → List Byte
  | .wrote _ :: .got _ :: evs => replyBytes evs
  | .got b :: evs => b :: replyBytes evs
  | _ :: evs => replyBytes evs
  | [] => []

/-- The first reply was a NAK. -/
def NakFirst (evs : List Event) : Prop := (replyBytes evs).head? = some seqNak

/-- `raw` was written, and once more exactly if `again`. -/
def Repeated (raw : List Byte) (again : Prop) (written : List Byte) : Prop :=
  (¬ again → written = raw) ∧ (again → written = raw ++ raw)

/-- The part was written as the bus wants it: no synchronization byte occurs, and every expand byte is
followed by one of its two codes. -/
structure OnWire (part : List Byte) (again : Prop) (written : List Byte) : Prop where
  repeated : Repeated (wireBytes part) again written
  canonical : ebusCode.Canonical written

/-- The CRC needs no escape, and the part was given with its CRC or needs none either. -/
def Sendable (part text : List Byte) : Prop :=
  Plain [crcOf part] ∧ (text = part ++ [crcOf part] ∨ Plain part)

/-! ### Replies -/

theorem Echoed.replyBytes_append {l : List Byte} {evs : List Event} (h : Echoed l evs)
    (rest : List Event) : replyBytes (evs ++ rest) = replyBytes rest := by
  induction h with
  | nil => rfl
  | cons b x _ ih => exact ih

/-! ### The stored form of a part -/

theorem wireBytes_twice (part : List Byte) :
    wireBytes part ++ wireBytes part =
      extendBytes ((part ++ [crcOf part]) ++ (part ++ [crcOf part])) :=
  (extendBytes_append _ _).symm

theorem canonical_extendBytes (l : List Byte) : ebusCode.Canonical (extendBytes l) := by
  rw [extendBytes_eq_stuff]
  exact ebusCode.canonical_stuff l

/-- The raw bytes of a part that was stored extended. -/
theorem extended_eq_wireBytes_iff (part : List Byte) :
    extendBytes part ++ [crcOf part] = wireBytes part ↔ Plain [crcOf part] := by
  rw [wireBytes, extendBytes_append, List.append_cancel_left_eq, eq_comm, extendBytes_eq_self_iff]

/-- The raw bytes of a part that was stored as it is. -/
theorem reduced_eq_wireBytes_iff (part : List Byte) :
    part ++ [crcOf part] = wireBytes part ↔ Plain part ∧ Plain [crcOf part] := by
  rw [wireBytes, eq_comm, extendBytes_eq_self_iff, plain_append]

theorem Master.Text.partBytes_eq_iff {m : Master} {l : List Byte} {stored : Sequence}
    (h : m.Text l stored) : partBytes stored m.crc = wireBytes m.bytes ↔ Sendable m.bytes l := by
  cases h with
  | bare hm =>
    have hne : m.bytes ≠ m.bytes ++ [crcOf m.bytes] := by simp
    exact (reduced_eq_wireBytes_iff m.bytes).trans
      ⟨fun h => ⟨h.2, .inr h.1⟩, fun h => ⟨h.2.resolve_left hne, h.1⟩⟩
  | full =>
    exact (extended_eq_wireBytes_iff m.bytes).trans ⟨fun h => ⟨h, .inl rfl⟩, fun h => h.1⟩

theorem Slave.Text.partBytes_eq_iff {s : Slave} {l : List Byte} {stored : Sequence}
    (h : s.Text l stored) : partBytes stored s.crc = wireBytes s.bytes ↔ Sendable s.bytes l := by
  cases h with
  | bare hs =>
    have hne : s.bytes ≠ s.bytes ++ [crcOf s.bytes] := by simp
    exact (reduced_eq_wireBytes_iff s.bytes).trans
      ⟨fun h => ⟨h.2, .inr h.1⟩, fun h => ⟨h.2.resolve_left hne, h.1⟩⟩
  | full =>
    exact (extended_eq_wireBytes_iff s.bytes).trans ⟨fun h => ⟨h, .inl rfl⟩, fun h => h.1⟩

/-- Bytes that were written once or twice are the part on the bus exactly if they are so once. -/
theorem Repeated.onWire_iff {part raw written : List Byte} {again : Prop}
    (h : Repeated raw again written) : OnWire part again written ↔ raw = wireBytes part := by
  by_cases hagain : again
  · rw [h.2 hagain]
    constructor
    · intro hw
      have heq := hw.repeated.2 hagain
      have hlen := congrArg List.length heq
      simp only [List.length_append] at hlen
      exact (List.append_inj heq (by omega)).1
    · rintro rfl
      refine ⟨⟨fun hno => absurd hagain hno, fun _ => rfl⟩, ?_⟩
      rw [wireBytes_twice]
      exact canonical_extendBytes _
  · rw [h.1 hagain]
    constructor
    · intro hw
      exact hw.repeated.1 hagain
    · rintro rfl
      exact ⟨⟨fun _ => rfl, fun hyes => absurd hyes hagain⟩, canonical_extendBytes _⟩

/-! ### The runs of the senders -/

/-- The first reply to `sendMessage`, and what it wrote behind the first byte `qq` of `lockBus`. -/
theorem MessageSent.repeated {tel : Telegram} {qq : Byte} {rest : List Byte} {evs : List Event}
    {ack : Byte} (h : MessageSent tel evs ack) (hqq : tel.master.seq = qq :: rest) :
    Repeated (partBytes tel.master tel.masterCRC) (NakFirst evs) (qq :: wroteBytes evs) := by
  cases h with
  | @once evs _ he hack =>
    have hno : ¬ NakFirst (evs ++ [.got ack]) := by
      rw [NakFirst, he.replyBytes_append]
      simpa [replyBytes] using hack
    refine ⟨fun _ => ?_, fun h => absurd h hno⟩
    rw [wroteBytes_append, he.wrote, partBytes, hqq]
    simp
  | @again evs evs' _ he he' =>
    have hyes : NakFirst (evs ++ [.got seqNak] ++ (evs' ++ [.got ack])) := by
      rw [NakFirst, List.append_assoc, he.replyBytes_append]
      rfl
    refine ⟨fun h => absurd hyes h, fun _ => ?_⟩
    simp only [wroteBytes_append, he.wrote, he'.wrote, partBytes, hqq]
    simp

theorem PartSent.repeated {l : List Byte} {evs : List Event} {ack : Byte} (h : PartSent l evs ack)
    (rest : List Event) : Repeated l (NakFirst (evs ++ rest)) (wroteBytes evs) := by
  cases h with
  | @once evs _ he hack =>
    have hno : ¬ NakFirst (evs ++ [.got ack] ++ rest) := by
      rw [NakFirst, List.append_assoc, he.replyBytes_append]
      simpa [replyBytes] using hack
    refine ⟨fun _ => ?_, fun h => absurd h hno⟩
    rw [wroteBytes_append, he.wrote]
    simp
  | @again evs evs' _ he he' =>
    have hyes : NakFirst (evs ++ [.got seqNak] ++ (evs' ++ [.got ack]) ++ rest) := by
      rw [NakFirst, List.append_assoc, List.append_assoc, he.replyBytes_append]
      rfl
    refine ⟨fun h => absurd hyes h, fun _ => ?_⟩
    simp only [wroteBytes_append, he.wrote, he'.wrote]
    simp

/-- An arbitration that was won. -/
theorem lockBus_won {impl : EbusImpl} {env : Env} {message : Message} {qq : Byte} {rest : List Byte}
    {w : World} (hmessage : impl.activeMessage = some message)
    (hqq : message.telegram.master.seq = qq :: rest)
    (hlock : exec lockBus { impl, env } = (.ok .sendMessage, w)) :
    w.events = [.wrote qq, .got qq] ∧ w.impl = impl := by
  let won : State → World → Prop := fun state w =>
    state = .sendMessage → w.events = [.wrote qq, .got qq] ∧ w.impl = impl
  have hwon : won .sendMessage w := by
    refine wp_ok (wp_lockBus won (fun _ _ => True) { impl, env } hmessage hqq ?_ ?_
      fun _ _ _ _ => trivial) hlock
    · exact fun w h hi _ => ⟨h.events, hi⟩
    · exact fun _ _ _ _ _ hstate => nomatch hstate
  exact hwon rfl

/-- What `lockBus` and `sendMessage` wrote. -/
theorem sendMessage_repeated {impl : EbusImpl} {env env' : Env} {message : Message} {qq : Byte}
    {rest : List Byte} {w w' : World} {state : State} (hmessage : impl.activeMessage = some message)
    (hqq : message.telegram.master.seq = qq :: rest)
    (hlock : exec lockBus { impl, env } = (.ok .sendMessage, w))
    (hsend : exec sendMessage { impl := w.impl, env := env' } = (.ok state, w')) :
    Repeated (partBytes message.telegram.master message.telegram.masterCRC)
      (message.telegram.type ≠ .BC ∧ NakFirst w'.events) (wroteBytes (w.events ++ w'.events)) := by
  obtain ⟨hevs, hi⟩ := lockBus_won hmessage hqq hlock
  have hm : w.impl.activeMessage = some message := by rw [hi, hmessage]
  let sent : State → World → Prop := fun _ w' =>
    Repeated (partBytes message.telegram.master message.telegram.masterCRC)
      (message.telegram.type ≠ .BC ∧ NakFirst w'.events) (qq :: wroteBytes w'.events)
  have hsent : ∀ evs ack w', message.telegram.type ≠ .BC → MessageSent message.telegram evs ack →
      w'.events = evs → sent .freeBus w' := by
    rintro evs ack w' hbc hs rfl
    have hr := hs.repeated hqq
    exact ⟨fun hno => hr.1 fun hnak => hno ⟨hbc, hnak⟩, fun hyes => hr.2 hyes.2⟩
  have hrep : sent state w' := by
    refine wp_ok (wp_sendMessage sent (fun _ _ => True) { impl := w.impl, env := env' } hm
      ?_ ?_ ?_ fun _ _ _ _ => trivial) hsend
    · intro hbc evs w' he h _
      have hev : w'.events = evs := h.events
      refine ⟨fun _ => ?_, fun hyes => absurd hbc hyes.1⟩
      rw [hev, he.wrote, partBytes, hqq]
      rfl
    · exact fun hbc evs w' hs h _ => hsent evs _ w' hbc hs h.events
    · exact fun hbc evs last w' _ hs h _ => hsent evs last w' hbc hs h.events
  rw [wroteBytes_append, hevs]
  exact hrep

theorem wroteBytes_resetEvents (message : Option Message) : wroteBytes (resetEvents message) = [] := by
  rcases message with _ | message <;> rfl

theorem wroteBytes_published (message response : List Byte) :
    wroteBytes [.published message response] = [] := rfl

theorem sendResponse_repeated {impl : EbusImpl} {env : Env} {message : Message} {w : World}
    {state : State} (hmessage : impl.passiveMessage = some message)
    (hrun : exec sendResponse { impl, env } = (.ok state, w)) :
    Repeated (partBytes message.telegram.slave message.telegram.slaveCRC) (NakFirst w.events)
      (wroteBytes w.events) := by
  let sent : State → World → Prop := fun _ w =>
    Repeated (partBytes message.telegram.slave message.telegram.slaveCRC) (NakFirst w.events)
      (wroteBytes w.events)
  have hwp : wp sendResponse sent (fun _ _ => True) { impl, env } := by
    refine wp_sendResponse _ _ _ hmessage (fun evs last w' hs h _ => ?_) fun _ _ _ _ => trivial
    have hev : w'.events = evs := h.events
    simp only [sent, World.reset, hev, wroteBytes_append, wroteBytes_resetEvents, wroteBytes_published,
      List.append_nil]
    rw [List.append_assoc]
    exact hs.repeated _
  have hsent : sent state w := wp_ok hwp hrun
  exact hsent

/-- **The senders write the wire form of a part, exactly when it is `Sendable`.** -/
theorem wire_iff (tel₀ tel : Telegram) (seq seq' : Sequence) (impl : EbusImpl) (message : Message) :
    (∀ (env env' : Env) (w w' : World) (state : State),
      tel₀.createMaster seq = .ok (tel, seq') → tel.masterState = SEQ_OK →
      impl.activeMessage = some message → message.telegram = tel →
      exec lockBus { impl, env } = (.ok .sendMessage, w) →
      exec sendMessage { impl := w.impl, env := env' } = (.ok state, w') →
      (OnWire tel.master.reduce.seq (tel.type ≠ .BC ∧ NakFirst w'.events)
          (wroteBytes (w.events ++ w'.events)) ↔
        Sendable tel.master.reduce.seq seq.reduce.seq)) ∧
    (∀ (env : Env) (w : World) (state : State),
      tel₀.createSlave seq = .ok (tel, seq') → tel.slaveState = SEQ_OK →
      impl.passiveMessage = some message → message.telegram = tel →
      exec sendResponse { impl, env } = (.ok state, w) →
      (OnWire tel.slave.reduce.seq (NakFirst w.events) (wroteBytes w.events) ↔
        Sendable tel.slave.reduce.seq seq.reduce.seq)) := by
  constructor
  · rintro env env' w w' state hcreate hstate hmessage rfl hlock hsend
    obtain ⟨m, stored, ht, htel⟩ := Telegram.createMaster_ok hcreate hstate
    obtain ⟨rest, hqq⟩ := ht.stored_eq
    have hmaster : message.telegram.master = stored := by rw [htel]; rfl
    have hcrc : message.telegram.masterCRC = m.crc := by rw [htel]; rfl
    rw [← hmaster] at hqq
    rw [(sendMessage_repeated hmessage hqq hlock hsend).onWire_iff, hmaster, hcrc, ht.reduce]
    exact ht.partBytes_eq_iff
  · rintro env w state hcreate hstate hmessage rfl hrun
    obtain ⟨s, stored, ht, htel⟩ := Telegram.createSlave_ok hcreate hstate
    have hslave : message.telegram.slave = stored := by rw [htel]; rfl
    have hcrc : message.telegram.slaveCRC = s.crc := by rw [htel]; rfl
    rw [(sendResponse_repeated hmessage hrun).onWire_iff, hslave, hcrc, ht.reduce]
    exact ht.partBytes_eq_iff

/-- The device of a run that reads these bytes. -/
def Env.bytes (l : List Byte) : Env := { reads := l.map .byte }

/-- A member state with one telegram to send and one to answer. -/
def sendingImpl (active passive : Telegram) : EbusImpl :=
  { address := 0x10
    slaveAddress := 0x15
    activeMessage := some { id := 0, telegram := active }
    passiveMessage := some { id := 0, telegram := passive } }

/-- A master part with its fields checked by evaluation. -/
def Master.ofCheck (qq zz pb sb : Byte) (data : List Byte)
    (h : (isMaster qq && isAddressValid zz && decide (data.length ≤ seqMaxBytes)) = true) : Master where
  qq
  zz
  pb
  sb
  data
  source := by simp_all
  target := by simp_all
  bound := by simp_all

/-- The telegram of a master part that was given without its CRC. -/
def bareTelegram (m : Master) : Telegram :=
  ({} : Telegram).withMaster m ⟨m.bytes, false⟩ m.crc SEQ_OK

/-- The request `1008b5050127` and the answer `0127`, given without their CRC, are written as they
should be. -/
theorem wire_sample :
    let m : Master := ⟨0x10, 0x08, 0xb5, 0x05, [0x27], by decide, by decide, by decide⟩
    let s : Slave := ⟨[0x27], by decide⟩
    let impl := sendingImpl (bareTelegram m) (({} : Telegram).withSlave s ⟨s.bytes, false⟩ s.crc SEQ_OK)
    let locked := (exec lockBus { impl, env := .bytes [0x10] }).2
    let sent := (exec sendMessage
      { impl := locked.impl, env := .bytes [0x08, 0xb5, 0x05, 0x01, 0x27, 0x0c, 0x00] }).2
    let answered := (exec sendResponse { impl, env := .bytes [0x01, 0x27, 0xbc, 0x00] }).2
    OnWire m.bytes (m.type ≠ .BC ∧ NakFirst sent.events) (wroteBytes (locked.events ++ sent.events)) ∧
      OnWire s.bytes (NakFirst answered.events) (wroteBytes answered.events) := by
  intro m s impl locked sent answered
  constructor
  · exact ((wire_iff {} (bareTelegram m) ⟨m.bytes, false⟩ _ impl _).1 _ _ locked sent .receiveResponse
      (Telegram.createMaster_bare {} m (by decide)) rfl rfl rfl (exec_eq_of_fst (by decide +kernel))
      (exec_eq_of_fst (by decide +kernel))).2 ⟨by decide, .inr (by decide)⟩
  · exact ((wire_iff {} _ ⟨s.bytes, false⟩ _ impl _).2 _ answered .monitorBus
      (Telegram.createSlave_bare {} s (by decide)) rfl rfl rfl
      (exec_eq_of_fst (by decide +kernel))).2 ⟨by decide, .inr (by decide)⟩

/-- The broadcast `10feb50501aa`, given without its CRC, is written with the synchronization byte in
it. -/
theorem wire_unescaped_sample :
    ¬ ∀ (tel₀ tel : Telegram) (seq seq' : Sequence) (impl : EbusImpl) (message : Message)
      (env env' : Env) (w w' : World) (state : State),
      tel₀.createMaster seq = .ok (tel, seq') → tel.masterState = SEQ_OK →
      impl.activeMessage = some message → message.telegram = tel →
      exec lockBus { impl, env } = (.ok .sendMessage, w) →
      exec sendMessage { impl := w.impl, env := env' } = (.ok state, w') →
      OnWire tel.master.reduce.seq (tel.type ≠ .BC ∧ NakFirst w'.events)
        (wroteBytes (w.events ++ w'.events)) := by
  intro h
  let m : Master := ⟨0x10, 0xfe, 0xb5, 0x05, [0xaa], by decide, by decide, by decide⟩
  let impl := sendingImpl (bareTelegram m) {}
  have hw := h {} (bareTelegram m) ⟨m.bytes, false⟩ _ impl _ (.bytes [0x10])
    (.bytes [0xfe, 0xb5, 0x05, 0x01, 0xaa, 0x1c]) _ _ .freeBus
    (Telegram.createMaster_bare {} m (by decide)) rfl rfl rfl
    (exec_eq_of_fst (by decide +kernel)) (exec_eq_of_fst (by decide +kernel))
  exact absurd (hw.repeated.1 fun hno => hno.1 rfl) (by decide +kernel)

end EBusFsm
