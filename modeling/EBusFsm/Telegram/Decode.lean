import EBusFsm.Telegram.Parse

/-!
# The parser against the bus protocol

`Encoded` lists the shapes of a complete telegram on the bus, with or without a repeated part, and
`parse_encoded` says that `parse` recovers both parts from the extended form of each of them.

The other direction holds with exceptions, and the two theorems behind it name them. A valid telegram
was acknowledged (`AckSound`) unless the text is `Unacknowledged`: `isValid` reads only the master
state when the target is a master, and the missing or wrong acknowledge byte is recorded in the slave
state. A valid telegram uses up the text (`UsesUp`) unless the text is `Trailing`: only the branch
for a repeated slave part looks for bytes behind the end.
-/

namespace EBusFsm

/-! ### Complete telegrams -/

/-- A master part with its acknowledge, sent once or twice. -/
inductive MasterSent (m : Master) : List Byte → Prop
  | once : MasterSent m (m.frame ++ [seqAck])
  | again : MasterSent m (m.frame ++ seqNak :: (m.frame ++ [seqAck]))

/-- A slave part with its acknowledge, sent once or twice. -/
inductive SlaveSent (s : Slave) : List Byte → Prop
  | once : SlaveSent s (s.frame ++ [seqAck])
  | again (x : Byte) : SlaveSent s (s.frame ++ seqNak :: x :: (s.frame ++ [seqAck]))

/-- The reduced text of a complete telegram. -/
inductive Encoded : List Byte → Master → Option Slave → Prop
  | broadcast (m : Master) (htype : m.type = .BC) : Encoded m.frame m none
  | toMaster (m : Master) (htype : m.type = .MM) {l : List Byte} (hl : MasterSent m l) :
      Encoded l m none
  | toSlave (m : Master) (s : Slave) (htype : m.type = .MS) {l r : List Byte}
      (hl : MasterSent m l) (hr : SlaveSent s r) : Encoded (l ++ r) m (some s)

theorem answer_of_sent {s : Slave} {r : List Byte} (h : SlaveSent s r) : Answer r s := by
  cases h with
  | once => exact .plain s []
  | again x => exact .again s s x

theorem accepted_of_encoded {l : List Byte} {m : Master} {s : Option Slave} (h : Encoded l m s) :
    Accepted l m s := by
  cases h with
  | broadcast m htype =>
    have hb := Accepted.broadcast m [] htype
    rwa [List.append_nil] at hb
  | toMaster m htype hl =>
    have hx : Exchange (m.frame ++ [seqAck]) m none :=
      .unanswered m [seqAck] (by rw [htype]; decide) (by decide)
    cases hl with
    | once => exact .once hx
    | again => exact .again m (by rw [htype]; decide) hx
  | toSlave m s htype hl hr =>
    have hx := Exchange.answered m s _ htype (answer_of_sent hr)
    cases hl with
    | once =>
      rw [List.append_assoc, List.singleton_append]
      exact .once hx
    | again =>
      have ha := Accepted.again m (by rw [htype]; decide) hx
      simpa using ha

/-- Decoding undoes encoding: `parse` of the extended form of a complete telegram. -/
theorem parse_encoded (tel : Telegram) {l : List Byte} {m : Master} {s : Option Slave}
    (h : Encoded l m s) :
    ∃ tel', tel.parse ⟨extendBytes l, true⟩ = .ok (tel', ⟨l, false⟩) ∧ tel'.isValid = true ∧
      tel'.type = typeOf m.zz ∧ tel'.masterState = SEQ_OK ∧
      tel'.masterCRC = (Sequence.crc ⟨m.bytes, false⟩).1 ∧ tel'.master.reduce = ⟨m.bytes, false⟩ ∧
      ∀ s', s = some s' → tel'.slaveState = SEQ_OK ∧
        tel'.slaveCRC = (Sequence.crc ⟨s'.bytes, false⟩).1 ∧
        tel'.slave.reduce = ⟨s'.bytes, false⟩ := by
  obtain ⟨tel', hrun, -, haccept⟩ := Telegram.parse_spec tel ⟨extendBytes l, true⟩
  simp only [Sequence.reduce_extended, reduceBytes_extendBytes] at hrun haccept
  obtain ⟨hvalid, hd⟩ := haccept m s (accepted_of_encoded h)
  refine ⟨tel', hrun, hvalid, hd.type, hd.masterState, hd.masterCRC, ?_, fun s' hs => ?_⟩
  · rw [hd.master, Sequence.reduce_extended, reduceBytes_extendBytes]
  · obtain ⟨hslave, hcrc, hstate⟩ := hd.slave s' hs
    refine ⟨hstate, hcrc, ?_⟩
    rw [hslave, Sequence.reduce_extended, reduceBytes_extendBytes]

/-- `ff52b509030d060043`, repeated after a NAK, and the answer `03b0fbaad0`. -/
theorem parse_encoded_sample :
    ∃ tel', ({} : Telegram).parse
        ⟨extendBytes [0xff, 0x52, 0xb5, 0x09, 0x03, 0x0d, 0x06, 0x00, 0x43, 0xff,
          0xff, 0x52, 0xb5, 0x09, 0x03, 0x0d, 0x06, 0x00, 0x43, 0x00,
          0x03, 0xb0, 0xfb, 0xaa, 0xd0, 0x00], true⟩ =
          .ok (tel', ⟨[0xff, 0x52, 0xb5, 0x09, 0x03, 0x0d, 0x06, 0x00, 0x43, 0xff,
            0xff, 0x52, 0xb5, 0x09, 0x03, 0x0d, 0x06, 0x00, 0x43, 0x00,
            0x03, 0xb0, 0xfb, 0xaa, 0xd0, 0x00], false⟩) ∧
      tel'.isValid = true ∧ tel'.slave.reduce = ⟨[0x03, 0xb0, 0xfb, 0xaa], false⟩ := by
  let m : Master := ⟨0xff, 0x52, 0xb5, 0x09, [0x0d, 0x06, 0x00], by decide, by decide, by decide⟩
  let s : Slave := ⟨[0xb0, 0xfb, 0xaa], by decide⟩
  have htext : [0xff, 0x52, 0xb5, 0x09, 0x03, 0x0d, 0x06, 0x00, 0x43, 0xff,
      0xff, 0x52, 0xb5, 0x09, 0x03, 0x0d, 0x06, 0x00, 0x43, 0x00,
      0x03, 0xb0, 0xfb, 0xaa, 0xd0, 0x00] =
      (m.frame ++ seqNak :: (m.frame ++ [seqAck])) ++ (s.frame ++ [seqAck]) := by decide
  rw [htext]
  obtain ⟨tel', hrun, hvalid, -, -, -, -, hslave⟩ :=
    parse_encoded {} (.toSlave m s (by decide) .again .once)
  exact ⟨tel', hrun, hvalid, (hslave s rfl).2.2⟩

/-! ### The last master part -/

/-- What may stand before the last master part: nothing, or a part that was not acknowledged. -/
inductive Lead : List Byte → Prop
  | none : Lead []
  | again (first : Master) (hfirst : first.type ≠ .BC) : Lead (first.frame ++ [seqNak])

theorem accepted_lead {pre l : List Byte} {m : Master} {s : Option Slave} (hpre : Lead pre)
    (h : Exchange l m s) : Accepted (pre ++ l) m s := by
  cases hpre with
  | none => exact .once h
  | again first hfirst =>
    rw [List.append_assoc, List.singleton_append]
    exact .again first hfirst h

theorem lead_of_accepted {l : List Byte} {m : Master} {s : Option Slave} (h : Accepted l m s)
    (htype : m.type ≠ .BC) : ∃ pre l', Lead pre ∧ l = pre ++ l' ∧ Exchange l' m s := by
  cases h with
  | broadcast m rest hbc => exact absurd hbc htype
  | once h => exact ⟨[], l, .none, rfl, h⟩
  | again first hfirst h => exact ⟨_, _, .again first hfirst, by simp, h⟩

/-- The last master part is determined by the text, when what follows it is not a NAK. -/
theorem lead_inj {pre pre' rest rest' : List Byte} {m m' : Master} (hpre : Lead pre)
    (hpre' : Lead pre') (hrest : rest.head? ≠ some seqNak) (hrest' : rest'.head? ≠ some seqNak)
    (h : pre ++ (m.frame ++ rest) = pre' ++ (m'.frame ++ rest')) :
    pre = pre' ∧ m = m' ∧ rest = rest' := by
  cases hpre with
  | none =>
    cases hpre' with
    | none =>
      obtain ⟨hm, hr⟩ := Master.frame_append_inj h
      exact ⟨rfl, hm, hr⟩
    | again first =>
      rw [List.append_assoc] at h
      obtain ⟨-, rfl⟩ := Master.frame_append_inj h
      exact absurd rfl hrest
  | again first =>
    rw [List.append_assoc] at h
    cases hpre' with
    | none =>
      obtain ⟨-, rfl⟩ := Master.frame_append_inj h.symm
      exact absurd rfl hrest'
    | again first' =>
      rw [List.append_assoc] at h
      obtain ⟨rfl, hnext⟩ := Master.frame_append_inj h
      obtain ⟨hm, hr⟩ := Master.frame_append_inj (List.cons.inj hnext).2
      exact ⟨rfl, hm, hr⟩

/-! ### Acknowledge soundness -/

/-- The slave part `s` is followed by the positive acknowledge of the master. -/
inductive Confirmed : List Byte → Slave → Prop
  | once (s : Slave) (rest : List Byte) : Confirmed (s.frame ++ seqAck :: rest) s
  | again (first s : Slave) (x : Byte) (rest : List Byte) :
      Confirmed (first.frame ++ seqNak :: x :: (s.frame ++ seqAck :: rest)) s

/-- A valid telegram to a master or a slave was acknowledged by its target, and the answer of a slave
by the master. -/
def AckSound (l : List Byte) (tel : Telegram) : Prop :=
  tel.isValid = true → tel.type = .MM ∨ tel.type = .MS →
    ∃ (pre rest : List Byte) (m : Master), Lead pre ∧ tel.master.reduce.seq = m.bytes ∧
      l = pre ++ (m.frame ++ seqAck :: rest) ∧
      (tel.type = .MS → ∃ s : Slave, tel.slave.reduce.seq = s.bytes ∧ Confirmed rest s)

/-- The last master part goes to a master, and no acknowledge byte follows it. -/
def Unacknowledged (l : List Byte) : Prop :=
  ∃ (pre rest : List Byte) (m : Master), Lead pre ∧ m.type = .MM ∧ l = pre ++ (m.frame ++ rest) ∧
    rest.head? ≠ some seqAck ∧ rest.head? ≠ some seqNak

theorem confirmed_of_answer {r : List Byte} {s : Slave} (h : Answer r s) : Confirmed r s := by
  cases h with
  | plain s rest => exact .once s rest
  | again first s x => exact .again first s x []

theorem Decoded.master_reduce {tel : Telegram} {m : Master} {s : Option Slave}
    (h : Decoded tel m s) : tel.master.reduce.seq = m.bytes := by
  rw [h.master, Sequence.reduce_extended, reduceBytes_extendBytes]

theorem Decoded.slave_reduce {tel : Telegram} {m : Master} {s : Slave}
    (h : Decoded tel m (some s)) : tel.slave.reduce.seq = s.bytes := by
  rw [(h.slave s rfl).1, Sequence.reduce_extended, reduceBytes_extendBytes]

theorem not_ackSound {l : List Byte} {tel : Telegram} (h : Unacknowledged l)
    (haccept : ∀ m s, Accepted l m s → tel.isValid = true ∧ Decoded tel m s) : ¬ AckSound l tel := by
  obtain ⟨pre, rest, m, hpre, hmm, rfl, hack, hnak⟩ := h
  intro hsound
  have hx : Exchange (m.frame ++ rest) m none := .unanswered m rest (by rw [hmm]; decide) hnak
  obtain ⟨hv, hd⟩ := haccept m none (accepted_lead hpre hx)
  obtain ⟨pre', rest', m', hpre', -, hl', -⟩ := hsound hv (.inl (hd.type.trans hmm))
  obtain ⟨-, -, rfl⟩ := lead_inj hpre hpre' hnak (by simp; decide) hl'
  exact hack rfl

/-- A valid telegram was acknowledged, exactly when the text is not `Unacknowledged`. -/
theorem parse_ackSound_iff (tel : Telegram) (seq : Sequence) :
    ∃ tel', tel.parse seq = .ok (tel', seq.reduce) ∧
      (AckSound seq.reduce.seq tel' ↔ ¬ Unacknowledged seq.reduce.seq) := by
  obtain ⟨tel', hrun, hvalid, haccept⟩ := Telegram.parse_spec tel seq
  refine ⟨tel', hrun, fun hsound h => not_ackSound h haccept hsound, fun hno hv htype => ?_⟩
  obtain ⟨m, s, ha, hd⟩ := hvalid hv
  rw [hd.type] at htype
  obtain ⟨pre, l', hpre, hl, hx⟩ := lead_of_accepted ha (by rcases htype with h | h <;> simp [h])
  rcases (exchange_iff _ _ _).1 hx with ⟨hne, rfl, rest, rfl, hnak⟩ | ⟨hms, s, rest, rfl, rfl, hans⟩
  · have hmm : m.type = .MM := htype.resolve_right hne
    by_cases hack : rest.head? = some seqAck
    · obtain ⟨r, rfl⟩ : ∃ r, rest = seqAck :: r := by
        rcases rest with _ | ⟨a, r⟩
        · simp at hack
        · exact ⟨r, by simpa using hack⟩
      refine ⟨pre, r, m, hpre, hd.master_reduce, hl, fun hms => ?_⟩
      rw [hd.type] at hms
      exact absurd hms hne
    · exact absurd ⟨pre, rest, m, hpre, hmm, hl, hack, hnak⟩ hno
  · exact ⟨pre, rest, m, hpre, hd.master_reduce, hl,
      fun _ => ⟨s, hd.slave_reduce, confirmed_of_answer hans⟩⟩

/-- A telegram between masters that ends with its CRC is valid. -/
theorem parse_unacknowledged_sample :
    ¬ ∀ (seq seq' : Sequence) (tel' : Telegram), ({} : Telegram).parse seq = .ok (tel', seq') →
      AckSound seq'.seq tel' := by
  intro h
  let seq : Sequence := ⟨[0x10, 0x03, 0xb5, 0x05, 0x01, 0x27, 0xbf], true⟩
  obtain ⟨tel', hrun, -, haccept⟩ := Telegram.parse_spec {} seq
  let m : Master := ⟨0x10, 0x03, 0xb5, 0x05, [0x27], by decide, by decide, by decide⟩
  exact not_ackSound ⟨[], [], m, .none, by decide, by decide, by decide, by decide⟩ haccept
    (h seq _ tel' hrun)

/-! ### Trailing bytes -/

/-- A valid telegram uses up the text: a broadcast is a master part with its CRC, a telegram to a
master ends with the byte at the place of the acknowledge of the target, one to a slave with the positive
acknowledge of the master. The byte in a telegram to a master is any byte but NAK; whether it acknowledges is the
matter of `AckSound`. -/
def UsesUp (l : List Byte) (tel : Telegram) : Prop :=
  tel.isValid = true →
    (tel.type = .BC → ∃ m : Master, tel.master.reduce.seq = m.bytes ∧ l = m.frame) ∧
    (tel.type = .MM → ∃ (pre : List Byte) (m : Master) (ack : Byte), Lead pre ∧
      tel.master.reduce.seq = m.bytes ∧ ack ≠ seqNak ∧ l = pre ++ (m.frame ++ [ack])) ∧
    (tel.type = .MS → ∃ (pre before : List Byte) (m : Master) (s : Slave), Lead pre ∧
      tel.master.reduce.seq = m.bytes ∧ tel.slave.reduce.seq = s.bytes ∧
      (before = [] ∨ ∃ (first : Slave) (x : Byte), before = first.frame ++ [seqNak, x]) ∧
      l = pre ++ (m.frame ++ seqAck :: (before ++ (s.frame ++ [seqAck]))))

/-- The texts that are accepted and not used up. -/
inductive Trailing : List Byte → Prop
  | broadcast (m : Master) (rest : List Byte) (htype : m.type = .BC) (hrest : rest ≠ []) :
      Trailing (m.frame ++ rest)
  | broadcastAgain (first m : Master) (rest : List Byte) (hfirst : first.type ≠ .BC)
      (htype : m.type = .BC) (hnak : rest.head? ≠ some seqNak) :
      Trailing (first.frame ++ seqNak :: (m.frame ++ rest))
  | toMaster (pre rest : List Byte) (m : Master) (hpre : Lead pre) (htype : m.type = .MM)
      (hlen : rest.length ≠ 1) (hnak : rest.head? ≠ some seqNak) :
      Trailing (pre ++ (m.frame ++ rest))
  | toSlave (pre rest : List Byte) (m : Master) (s : Slave) (hpre : Lead pre)
      (htype : m.type = .MS) (hrest : rest ≠ []) :
      Trailing (pre ++ (m.frame ++ seqAck :: (s.frame ++ seqAck :: rest)))

theorem accepted_broadcast {l : List Byte} {m : Master} {s : Option Slave} (h : Accepted l m s)
    (htype : m.type = .BC) :
    (∃ rest, l = m.frame ++ rest) ∨
      ∃ (first : Master) (rest : List Byte), first.type ≠ .BC ∧ rest.head? ≠ some seqNak ∧
        l = first.frame ++ seqNak :: (m.frame ++ rest) := by
  cases h with
  | broadcast m rest => exact .inl ⟨rest, rfl⟩
  | once h =>
    obtain ⟨rest, rfl⟩ := Telegram.exchange_frame h
    exact .inl ⟨rest, rfl⟩
  | again first hfirst h =>
    rcases (exchange_iff _ _ _).1 h with ⟨-, -, rest, rfl, hnak⟩ | ⟨hms, -⟩
    · exact .inr ⟨first, rest, hfirst, hnak, rfl⟩
    · exact absurd (htype.symm.trans hms) (by decide)

theorem not_usesUp {l : List Byte} {tel : Telegram} (h : Trailing l)
    (haccept : ∀ m s, Accepted l m s → tel.isValid = true ∧ Decoded tel m s) : ¬ UsesUp l tel := by
  intro huses
  cases h with
  | broadcast m rest htype hrest =>
    obtain ⟨hv, hd⟩ := haccept m none (.broadcast m rest htype)
    obtain ⟨m', -, he⟩ := (huses hv).1 (hd.type.trans htype)
    have he' : m.frame ++ rest = m'.frame ++ [] := by simpa using he
    exact hrest (Master.frame_append_inj he').2
  | broadcastAgain first m rest hfirst htype hnak =>
    have hx : Exchange (m.frame ++ rest) m none :=
      .unanswered m rest (by rw [htype]; decide) hnak
    obtain ⟨hv, hd⟩ := haccept m none (.again first hfirst hx)
    obtain ⟨m', -, he⟩ := (huses hv).1 (hd.type.trans htype)
    have he' : first.frame ++ seqNak :: (m.frame ++ rest) = m'.frame ++ [] := by simpa using he
    exact nomatch (Master.frame_append_inj he').2
  | toMaster pre rest m hpre htype hlen hnak =>
    have hx : Exchange (m.frame ++ rest) m none :=
      .unanswered m rest (by rw [htype]; decide) hnak
    obtain ⟨hv, hd⟩ := haccept m none (accepted_lead hpre hx)
    obtain ⟨pre', m', ack, hpre', -, hack, he⟩ := (huses hv).2.1 (hd.type.trans htype)
    obtain ⟨-, -, rfl⟩ := lead_inj hpre hpre' hnak (by simpa using hack) he
    exact hlen rfl
  | toSlave pre rest m s hpre htype hrest =>
    have hx := Exchange.answered m s _ htype (.plain s rest)
    obtain ⟨hv, hd⟩ := haccept m (some s) (accepted_lead hpre hx)
    obtain ⟨pre', before, m', s', hpre', -, -, hbefore, he⟩ := (huses hv).2.2 (hd.type.trans htype)
    obtain ⟨-, -, he⟩ := lead_inj hpre hpre' (by simp; decide) (by simp; decide) he
    rw [List.cons.injEq] at he
    rcases hbefore with rfl | ⟨first, x, rfl⟩
    · obtain ⟨-, hr⟩ := Slave.frame_append_inj he.2
      exact hrest (by simpa using hr)
    · rw [List.append_assoc] at he
      obtain ⟨-, hr⟩ := Slave.frame_append_inj he.2
      exact absurd (List.cons.inj hr).1 (by decide)

/-- A valid telegram uses up the text, exactly when the text is not `Trailing`. -/
theorem parse_usesUp_iff (tel : Telegram) (seq : Sequence) :
    ∃ tel', tel.parse seq = .ok (tel', seq.reduce) ∧
      (UsesUp seq.reduce.seq tel' ↔ ¬ Trailing seq.reduce.seq) := by
  obtain ⟨tel', hrun, hvalid, haccept⟩ := Telegram.parse_spec tel seq
  refine ⟨tel', hrun, fun huses h => not_usesUp h haccept huses, fun hno hv => ?_⟩
  obtain ⟨m, s, ha, hd⟩ := hvalid hv
  generalize seq.reduce.seq = l at *
  refine ⟨fun hbc => ?_, fun hmm => ?_, fun hms => ?_⟩
  · have htype : m.type = .BC := hd.type.symm.trans hbc
    refine ⟨m, hd.master_reduce, ?_⟩
    rcases accepted_broadcast ha htype with ⟨rest, rfl⟩ | ⟨first, rest, hfirst, hnak, rfl⟩
    · by_cases hrest : rest = []
      · rw [hrest, List.append_nil]
      · exact absurd (.broadcast m rest htype hrest) hno
    · exact absurd (.broadcastAgain first m rest hfirst htype hnak) hno
  · have htype : m.type = .MM := hd.type.symm.trans hmm
    obtain ⟨pre, l', hpre, rfl, hx⟩ := lead_of_accepted ha (by rw [htype]; decide)
    rcases (exchange_iff _ _ _).1 hx with ⟨-, -, rest, rfl, hnak⟩ | ⟨h, -⟩
    · rcases rest with _ | ⟨ack, _ | ⟨b, r⟩⟩
      · exact absurd (.toMaster pre [] m hpre htype (by simp) hnak) hno
      · exact ⟨pre, m, ack, hpre, hd.master_reduce, by simpa using hnak, rfl⟩
      · exact absurd (.toMaster pre _ m hpre htype (by simp) hnak) hno
    · exact absurd (htype.symm.trans h) (by decide)
  · have htype : m.type = .MS := hd.type.symm.trans hms
    obtain ⟨pre, l', hpre, rfl, hx⟩ := lead_of_accepted ha (by rw [htype]; decide)
    rcases (exchange_iff _ _ _).1 hx with ⟨h, -⟩ | ⟨-, s, r, rfl, rfl, hans⟩
    · exact absurd htype h
    · cases hans with
      | plain s rest =>
        by_cases hrest : rest = []
        · subst hrest
          exact ⟨pre, [], m, s, hpre, hd.master_reduce, hd.slave_reduce, .inl rfl, rfl⟩
        · exact absurd (.toSlave pre rest m s hpre htype hrest) hno
      | again first s x =>
        exact ⟨pre, first.frame ++ [seqNak, x], m, s, hpre, hd.master_reduce, hd.slave_reduce,
          .inr ⟨first, x, rfl⟩, by simp⟩

/-- A broadcast followed by one more byte is valid. -/
theorem parse_trailing_sample :
    ¬ ∀ (seq seq' : Sequence) (tel' : Telegram), ({} : Telegram).parse seq = .ok (tel', seq') →
      UsesUp seq'.seq tel' := by
  intro h
  let seq : Sequence := ⟨[0x10, 0xfe, 0xb5, 0x05, 0x01, 0x27, 0x95, 0x42], true⟩
  obtain ⟨tel', hrun, -, haccept⟩ := Telegram.parse_spec {} seq
  let m : Master := ⟨0x10, 0xfe, 0xb5, 0x05, [0x27], by decide, by decide, by decide⟩
  have htext : seq.reduce.seq = m.frame ++ [0x42] := by decide
  have htrail : Trailing seq.reduce.seq := by
    rw [htext]
    exact .broadcast m [0x42] (by decide) (by decide)
  exact not_usesUp htrail haccept (h seq _ tel' hrun)

end EBusFsm
