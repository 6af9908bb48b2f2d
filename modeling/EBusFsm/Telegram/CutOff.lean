import EBusFsm.Telegram.Decode

/-!
# Telegrams that are cut off

A participant may fall silent in the middle of a telegram; then the synchronization byte comes early, and `parse`
gets the beginning of a telegram. `CutOff` lists the beginnings of a complete telegram, each with the two states
that name what is missing, and `parse_cutOff` says that `parse` gives these states wherever the extended form was
cut, also in the middle of an escaped symbol: what is missing is never taken for a wrong byte, and a repeated part
that was begun counts, not the one before it.

A telegram that was cut off is valid in one case only, between the telegram of a master to a master and its
acknowledge byte, because `isValid` does not look at the slave state there.
-/

namespace EBusFsm

/-! ### Beginnings -/

/-- What may stand before the last slave part: nothing, or a part that was not acknowledged. -/
inductive SlaveLead : List Byte → Prop
  | none : SlaveLead []
  | again (first : Slave) (x : Byte) : SlaveLead (first.frame ++ [seqNak, x])

/-- The beginnings of a complete telegram, with the state of the master and of the slave part. -/
inductive CutOff (m : Master) (s : Option Slave) : List Byte → Int → Int → Prop
  | master {pre p : List Byte} (hpre : Lead pre) (hp : p <+: m.frame) (hne : p ≠ m.frame) :
      CutOff m s (pre ++ p) SEQ_ERR_SHORT SEQ_EMPTY
  /-- The acknowledge byte of the slave. -/
  | slaveACK {pre : List Byte} (hpre : Lead pre) (htype : m.type ≠ .BC) :
      CutOff m s (pre ++ m.frame) SEQ_OK SEQ_ERR_ACK_MISS
  | slave {pre lead p : List Byte} {s' : Slave} (hpre : Lead pre) (htype : m.type = .MS) (hs : s = some s')
      (hlead : SlaveLead lead) (hp : p <+: s'.frame) (hne : p ≠ s'.frame) :
      CutOff m s (pre ++ (m.frame ++ seqAck :: (lead ++ p))) SEQ_OK SEQ_ERR_SHORT
  /-- Behind the NAK of the master nothing follows. -/
  | slaveAgain {pre : List Byte} {s' : Slave} (hpre : Lead pre) (htype : m.type = .MS) (hs : s = some s') :
      CutOff m s (pre ++ (m.frame ++ seqAck :: (s'.frame ++ [seqNak]))) SEQ_OK SEQ_ERR_SHORT
  /-- The acknowledge byte of the master. -/
  | masterACK {pre lead : List Byte} {s' : Slave} (hpre : Lead pre) (htype : m.type = .MS) (hs : s = some s')
      (hlead : SlaveLead lead) :
      CutOff m s (pre ++ (m.frame ++ seqAck :: (lead ++ s'.frame))) SEQ_ERR_ACK_MISS SEQ_OK

theorem prefix_append_cases {l r p : List Byte} (h : p <+: l ++ r) :
    p <+: l ∧ p ≠ l ∨ ∃ q, p = l ++ q ∧ q <+: r := by
  by_cases hlen : l.length ≤ p.length
  · obtain ⟨q, rfl⟩ := List.prefix_of_prefix_length_le (List.prefix_append l r) h hlen
    exact .inr ⟨q, rfl, (List.prefix_append_right_inj l).1 h⟩
  · have hp := List.prefix_of_prefix_length_le h (List.prefix_append l r) (Nat.le_of_not_le hlen)
    refine .inl ⟨hp, fun heq => hlen ?_⟩
    rw [heq]

section Beginnings

variable {m : Master} {s : Option Slave} {l p q r : List Byte}

/-- A beginning of a master part with its acknowledge byte, or all of it and more. -/
theorem cutOff_frame (hpre : Lead l) (htype : m.type ≠ .BC) (h : p <+: m.frame ++ seqAck :: r) :
    (∃ masterState slaveState, CutOff m s (l ++ p) masterState slaveState) ∨
      ∃ q, p = m.frame ++ seqAck :: q ∧ q <+: r := by
  rcases prefix_append_cases h with ⟨hp, hne⟩ | ⟨q, rfl, hq⟩
  · exact .inl ⟨_, _, .master hpre hp hne⟩
  rcases List.prefix_cons_iff.1 hq with rfl | ⟨q, rfl, hr⟩
  · rw [List.append_nil]
    exact .inl ⟨_, _, .slaveACK hpre htype⟩
  · exact .inr ⟨q, rfl, hr⟩

theorem cutOff_masterSent (hsent : MasterSent m l) (htype : m.type ≠ .BC) (h : p <+: l ++ r) :
    (∃ masterState slaveState, CutOff m s p masterState slaveState) ∨
      ∃ pre q, Lead pre ∧ l = pre ++ (m.frame ++ [seqAck]) ∧ p = pre ++ (m.frame ++ seqAck :: q) ∧ q <+: r := by
  cases hsent with
  | once =>
    rw [List.append_assoc, List.singleton_append] at h
    rcases cutOff_frame (s := s) .none htype h with hcut | ⟨q, rfl, hq⟩
    · exact .inl hcut
    · exact .inr ⟨[], q, .none, rfl, rfl, hq⟩
  | again =>
    have hagain : Lead (m.frame ++ [seqNak]) := .again m htype
    rw [List.append_assoc] at h
    rcases prefix_append_cases h with ⟨hp, hne⟩ | ⟨q, rfl, hq⟩
    · exact .inl ⟨_, _, .master .none hp hne⟩
    rcases List.prefix_cons_iff.1 hq with rfl | ⟨q, rfl, hrest⟩
    · rw [List.append_nil]
      exact .inl ⟨_, _, .slaveACK .none htype⟩
    rw [List.append_eq, List.append_assoc, List.singleton_append] at hrest
    rw [List.append_cons]
    rcases cutOff_frame (s := s) hagain htype hrest with hcut | ⟨q, rfl, hr⟩
    · exact .inl hcut
    · exact .inr ⟨_, q, hagain, by simp, rfl, hr⟩

/-- A beginning of a slave part with its acknowledge byte, or all of it and more. -/
theorem cutOff_slaveSent {pre : List Byte} {s' : Slave} (hpre : Lead pre) (htype : m.type = .MS)
    (hsent : SlaveSent s' r) (hp : p <+: r) (hne : p ≠ r) :
    ∃ masterState slaveState, CutOff m (some s') (pre ++ (m.frame ++ seqAck :: p)) masterState slaveState := by
  cases hsent with
  | once =>
    rcases prefix_append_cases hp with ⟨hp, hne⟩ | ⟨q, rfl, hq⟩
    · exact ⟨_, _, .slave hpre htype rfl .none hp hne⟩
    · rcases List.prefix_cons_iff.1 hq with rfl | ⟨q, rfl, hnil⟩
      · rw [List.append_nil]
        exact ⟨_, _, .masterACK hpre htype rfl .none⟩
      · rw [List.prefix_nil.1 hnil] at hne
        exact absurd rfl hne
  | again x =>
    rcases prefix_append_cases hp with ⟨hp, hne⟩ | ⟨q, rfl, hq⟩
    · exact ⟨_, _, .slave hpre htype rfl .none hp hne⟩
    rcases List.prefix_cons_iff.1 hq with rfl | ⟨q, rfl, hx⟩
    · rw [List.append_nil]
      exact ⟨_, _, .masterACK hpre htype rfl .none⟩
    rcases List.prefix_cons_iff.1 hx with rfl | ⟨q, rfl, hrest⟩
    · exact ⟨_, _, .slaveAgain hpre htype rfl⟩
    have hlead := SlaveLead.again s' x
    rw [show s'.frame ++ seqNak :: x :: q = s'.frame ++ [seqNak, x] ++ q by simp]
    rcases prefix_append_cases hrest with ⟨hq, hne⟩ | ⟨q, rfl, hack⟩
    · exact ⟨_, _, .slave hpre htype rfl hlead hq hne⟩
    · rcases List.prefix_cons_iff.1 hack with rfl | ⟨q, rfl, hnil⟩
      · rw [List.append_nil]
        exact ⟨_, _, .masterACK hpre htype rfl hlead⟩
      · rw [List.prefix_nil.1 hnil] at hne
        exact absurd rfl hne

/-- A complete telegram that is cut off anywhere is one of the beginnings. -/
theorem cutOff_of_encoded (h : Encoded l m s) (hp : p <+: l) (hne : p ≠ l) :
    ∃ masterState slaveState, CutOff m s p masterState slaveState := by
  cases h with
  | broadcast m htype => exact ⟨_, _, .master .none hp hne⟩
  | toMaster m htype hsent =>
    have hbc : m.type ≠ .BC := by
      rw [htype]
      decide
    rw [← List.append_nil l] at hp
    rcases cutOff_masterSent (s := none) hsent hbc hp with hcut | ⟨pre, q, -, rfl, rfl, hq⟩
    · exact hcut
    · rw [List.prefix_nil.1 hq] at hne
      exact absurd rfl hne
  | toSlave m s htype hsent hslave =>
    have hbc : m.type ≠ .BC := by
      rw [htype]
      decide
    rcases cutOff_masterSent (s := some s) hsent hbc hp with hcut | ⟨pre, q, hpre, rfl, rfl, hq⟩
    · exact hcut
    · refine cutOff_slaveSent hpre htype hslave hq fun heq => hne ?_
      rw [heq]
      simp

end Beginnings

/-! ### The parser on a beginning -/

theorem checkMasterSequence_short {m : Master} {p : List Byte} (hp : p <+: m.frame) (hne : p ≠ m.frame) :
    checkMasterSequence ⟨p, false⟩ = .ok SEQ_ERR_SHORT := by
  by_cases hsize : p.length < 6
  · simp [checkMasterSequence, Sequence.size, hsize]
    rfl
  obtain ⟨t, ht⟩ := hp
  have hlen := congrArg List.length ht
  have htail : t ≠ [] := fun h => hne (by rw [← ht, h, List.append_nil])
  have hpos := List.length_pos_iff.2 htail
  rw [List.length_append, m.frame_length] at hlen
  obtain ⟨q, z, b, s, n, d, rfl⟩ : ∃ q z b s n d, p = q :: z :: b :: s :: n :: d := by
    rcases p with _ | ⟨q, _ | ⟨z, _ | ⟨b, _ | ⟨s, _ | ⟨n, d⟩⟩⟩⟩⟩ <;> simp at hsize
    exact ⟨q, z, b, s, n, d, rfl⟩
  simp only [Master.frame, Master.bytes, List.cons_append, List.cons.injEq] at ht
  obtain ⟨rfl, rfl, rfl, rfl, rfl, -⟩ := ht
  have hbound := m.bound
  simp only [List.length_cons] at hlen hsize
  have h0 : Sequence.byteAt ⟨m.qq :: m.zz :: m.pb :: m.sb :: m.nn :: d, false⟩ 0 = .ok m.qq := rfl
  have h1 : Sequence.byteAt ⟨m.qq :: m.zz :: m.pb :: m.sb :: m.nn :: d, false⟩ 1 = .ok m.zz := rfl
  have h4 : Sequence.byteAt ⟨m.qq :: m.zz :: m.pb :: m.sb :: m.nn :: d, false⟩ 4 = .ok m.nn := rfl
  simp only [checkMasterSequence, Sequence.size, List.length_cons, h0, h1, h4, m.source, m.target, ok_bind, m.nn_toNat]
  rw [if_neg (by omega), if_neg (by simp), if_neg (by simp), if_neg (by omega), if_pos (by omega)]
  rfl

theorem checkSlaveSequence_short {s : Slave} {p : List Byte} (hp : p <+: s.frame) (hne : p ≠ s.frame) :
    checkSlaveSequence ⟨p, false⟩ = .ok SEQ_ERR_SHORT := by
  by_cases hsize : p.length < 2
  · simp [checkSlaveSequence, Sequence.size, hsize]
    rfl
  obtain ⟨t, ht⟩ := hp
  have hlen := congrArg List.length ht
  have htail : t ≠ [] := fun h => hne (by rw [← ht, h, List.append_nil])
  have hpos := List.length_pos_iff.2 htail
  rw [List.length_append, s.frame_length] at hlen
  obtain ⟨n, d, rfl⟩ : ∃ n d, p = n :: d := by
    rcases p with _ | ⟨n, d⟩ <;> simp at hsize
    exact ⟨n, d, rfl⟩
  simp only [Slave.frame, Slave.bytes, List.cons_append, List.cons.injEq] at ht
  obtain ⟨rfl, -⟩ := ht
  have hbound := s.bound
  simp only [List.length_cons] at hlen hsize
  have h0 : Sequence.byteAt ⟨s.nn :: d, false⟩ 0 = .ok s.nn := rfl
  simp only [checkSlaveSequence, Sequence.size, List.length_cons, h0, ok_bind, s.nn_toNat]
  rw [if_neg (by omega), if_neg (by omega), if_pos (by omega)]
  rfl

namespace Telegram

section Blocks

variable {m : Master} {s : Slave} {p rest : List Byte}

theorem parseSlave_short (tel : Telegram) (l : List Byte) (offset : Nat) (htype : tel.type = .MS)
    (hl : l.drop (offset + (5 + tel.masterNN + 2)) = p) (hp : p <+: s.frame) (hne : p ≠ s.frame) :
    tel.parseSlave ⟨l, false⟩ offset = .ok { tel with slaveState := SEQ_ERR_SHORT } := by
  have hshort : SEQ_ERR_SHORT ≠ SEQ_OK := by decide
  simp only [parseSlave, htype, ne_eq, not_true_eq_false, if_false, Sequence.slice_zero, ok_bind, hl,
    checkSlaveSequence_short hp hne, hshort, not_false_eq_true, if_true]
  rfl

theorem parseSlaveAgain_short (tel : Telegram) (first : Slave) (x : Byte) (hp : p <+: s.frame) (hne : p ≠ s.frame) :
    tel.parseSlaveAgain ⟨first.frame ++ seqNak :: x :: p, false⟩ ⟨first.frame, false⟩ =
      .ok { tel with slave := {}, slaveState := SEQ_ERR_SHORT } := by
  have hshort : SEQ_ERR_SHORT ≠ SEQ_OK := by decide
  have htext : first.frame ++ seqNak :: x :: p = (first.frame ++ [seqNak, x]) ++ p := by simp
  have hoff : Sequence.size ⟨first.frame, false⟩ + 2 = (first.frame ++ [seqNak, x]).length := by
    simp [Sequence.size]
  have hsize : ¬ Sequence.size ⟨(first.frame ++ [seqNak, x]) ++ p, false⟩ < (first.frame ++ [seqNak, x]).length := by
    simp only [Sequence.size, List.length_append]
    omega
  rw [htext, parseSlaveAgain, hoff]
  simp only [if_neg hsize, Sequence.slice_append_zero, ok_bind, checkSlaveSequence_short hp hne, ne_eq, hshort,
    not_false_eq_true, if_true]
  rfl

theorem parseSlaveAgain_nothing (tel : Telegram) (first : Slave) :
    tel.parseSlaveAgain ⟨first.frame ++ [seqNak], false⟩ ⟨first.frame, false⟩ =
      .ok { tel with slaveState := SEQ_ERR_SHORT } := by
  simp [parseSlaveAgain, Sequence.size]
  rfl

theorem parseMasterAgain_short (tel : Telegram) (first : Master) (hp : p <+: m.frame) (hne : p ≠ m.frame) :
    tel.parseMasterAgain ⟨first.frame ++ seqNak :: p, false⟩ ⟨first.bytes ++ [first.crc], false⟩ =
      .ok { tel with master := {}, masterState := SEQ_ERR_SHORT } := by
  have hshort : SEQ_ERR_SHORT ≠ SEQ_OK := by decide
  have htext : first.frame ++ seqNak :: p = (first.frame ++ [seqNak]) ++ p := by simp
  have hoff : Sequence.size ⟨first.bytes ++ [first.crc], false⟩ + 1 = (first.frame ++ [seqNak]).length := by
    simp [Sequence.size, Master.frame]
  have hsize : ¬ Sequence.size ⟨(first.frame ++ [seqNak]) ++ p, false⟩ < (first.frame ++ [seqNak]).length := by
    simp only [Sequence.size, List.length_append]
    omega
  rw [htext, parseMasterAgain, hoff]
  simp only [if_neg hsize, Sequence.slice_append_zero, ok_bind, checkMasterSequence_short hp hne, ne_eq, hshort,
    not_false_eq_true, if_true]
  rfl

/-- A text with a first master part that was not acknowledged. -/
theorem parseReduced_again (tel : Telegram) (first : Master) (hfirst : first.type ≠ .BC) (rest : List Byte) :
    tel.parseReduced ⟨first.frame ++ seqNak :: rest, false⟩ =
      Telegram.parseMasterAgain
        { tel.withMaster first ⟨extendBytes first.bytes, true⟩ first.crc SEQ_OK with slaveACK := seqNak }
        ⟨first.frame ++ seqNak :: rest, false⟩ ⟨first.bytes ++ [first.crc], false⟩ := by
  have htext : first.frame ++ seqNak :: rest = first.bytes ++ first.crc :: seqNak :: rest := by simp [Master.frame]
  have hack := parseAck_frame (tel.withMaster first ⟨extendBytes first.bytes, true⟩ first.crc SEQ_OK) first
    (seqNak :: rest) rfl
  rw [htext] at hack
  rw [htext, parseReduced_frame]
  simp only [ne_eq, not_true_eq_false, if_false, if_true, hfirst, not_false_eq_true, hack, awaitAck, and_false]

/-- What `parse` does behind the last master part. -/
theorem parseReduced_lead (tel : Telegram) (hslave : tel.slave = {}) (hstate : tel.slaveState = SEQ_EMPTY)
    {pre : List Byte} (hpre : Lead pre) (htype : m.type ≠ .BC) (rest : List Byte) :
    ∃ tel₁ onNak, Held tel₁ m ∧ tel.parseReduced ⟨pre ++ (m.frame ++ rest), false⟩ =
      awaitAck tel₁ rest onNak fun tel => tel.parseSlave ⟨pre ++ (m.frame ++ rest), false⟩ pre.length := by
  have htext : m.frame ++ rest = m.bytes ++ m.crc :: rest := by simp [Master.frame]
  have hheld := held_withMaster m hslave hstate
  cases hpre with
  | none =>
    refine ⟨_, fun tel => tel.parseMasterAgain ⟨m.frame ++ rest, false⟩ ⟨m.bytes ++ [m.crc], false⟩, hheld, ?_⟩
    rw [List.nil_append, List.length_nil, ← parseAck_frame _ _ _ hheld.masterNN, htext, parseReduced_frame]
    simp only [ne_eq, not_true_eq_false, if_false, if_true, htype, not_false_eq_true]
  | again first hfirst =>
    let tel₁ : Telegram :=
      { tel.withMaster first ⟨extendBytes first.bytes, true⟩ first.crc SEQ_OK with slaveACK := seqNak }
    have hheld₁ : Held (tel₁.withMaster m ⟨extendBytes m.bytes, true⟩ m.crc SEQ_OK) m :=
      held_withMaster m hslave hstate
    refine ⟨_, fun tel => .ok { tel with
      masterState := if rest.length > 1 then SEQ_ERR_LONG else SEQ_ERR_INVALID }, hheld₁, ?_⟩
    rw [List.append_assoc, List.singleton_append, parseReduced_again _ _ hfirst, htext, parseMasterAgain_frame]
    simp only [ne_eq, not_true_eq_false, if_false, if_true, List.length_append, List.length_singleton]
    rfl

/-- What `parse` does behind the last master part and a positive acknowledge byte. -/
theorem parseReduced_acked (tel : Telegram) (hslave : tel.slave = {}) (hstate : tel.slaveState = SEQ_EMPTY)
    {pre : List Byte} (hpre : Lead pre) (htype : m.type = .MS) (rest : List Byte) :
    ∃ (tel₁ : Telegram) (l : List Byte), tel₁.type = .MS ∧ tel₁.masterState = SEQ_OK ∧
      l.drop (pre.length + (5 + tel₁.masterNN + 2)) = rest ∧
      tel.parseReduced ⟨pre ++ (m.frame ++ seqAck :: rest), false⟩ = tel₁.parseSlave ⟨l, false⟩ pre.length := by
  have hbc : m.type ≠ .BC := by
    rw [htype]
    decide
  obtain ⟨tel₁, onNak, hheld, hrun⟩ := parseReduced_lead tel hslave hstate hpre hbc (seqAck :: rest)
  refine ⟨{ tel₁ with slaveACK := seqAck }, pre ++ (m.frame ++ seqAck :: rest), hheld.decoded.type.trans htype,
    hheld.decoded.masterState, ?_, ?_⟩
  · show List.drop (pre.length + (5 + tel₁.masterNN + 2)) _ = rest
    rw [hheld.masterNN]
    exact drop_frame pre m seqAck rest _ rfl
  · rw [hrun]
    simp only [awaitAck, ne_eq, not_true_eq_false, false_and, if_false, show seqAck ≠ seqNak by decide]

theorem invalid_of_MS {tel : Telegram} (htype : tel.type = .MS) (h : tel.masterState + tel.slaveState ≠ SEQ_OK) :
    tel.isValid = false := by
  rw [← Bool.not_eq_true, isValid_of_MS htype]
  exact h

/-- `parse` of a beginning gives the states that name what is missing. -/
theorem parseReduced_cutOff (tel : Telegram) (hslave : tel.slave = {}) (hstate : tel.slaveState = SEQ_EMPTY)
    {l : List Byte} {masterState slaveState : Int} {response : Option Slave}
    (h : CutOff m response l masterState slaveState) :
    ∃ tel', tel.parseReduced ⟨l, false⟩ = .ok tel' ∧ tel'.masterState = masterState ∧ tel'.slaveState = slaveState ∧
      (tel'.isValid = true → m.type = .MM ∧ ∃ pre, Lead pre ∧ l = pre ++ m.frame) := by
  have hdone : ∀ tel' : Telegram, tel'.type = .MS → tel'.masterState = masterState → tel'.slaveState = slaveState →
      masterState + slaveState ≠ SEQ_OK → ∃ tel'' : Telegram, Except.ok tel' = Except.ok (ε := OutOfRange) tel'' ∧
        tel''.masterState = masterState ∧ tel''.slaveState = slaveState ∧
        (tel''.isValid = true → m.type = .MM ∧ ∃ pre, Lead pre ∧ l = pre ++ m.frame) := by
    rintro tel' hms rfl rfl hne
    exact ⟨tel', rfl, rfl, rfl, fun hv => absurd ((invalid_of_MS hms hne).symm.trans hv) (by decide)⟩
  cases h with
  | @master pre p hpre hp hne =>
    have hshort : SEQ_ERR_SHORT ≠ SEQ_OK := by decide
    have hinvalid : ∀ tel' : Telegram, tel'.isValid = true → tel'.masterState = SEQ_ERR_SHORT →
        tel'.slaveState ≠ SEQ_EMPTY := by
      intro tel' hv hm hs
      rw [isValid, hm, hs] at hv
      split_ifs at hv <;> exact absurd hv (by decide)
    cases hpre with
    | none =>
      refine ⟨{ tel with masterState := SEQ_ERR_SHORT }, ?_, rfl, hstate, fun hv => (hinvalid _ hv rfl hstate).elim⟩
      simp only [List.nil_append, parseReduced, checkMasterSequence_short hp hne, ok_bind, ne_eq, hshort,
        not_false_eq_true, if_true]
      rfl
    | again first hfirst =>
      rw [List.append_assoc, List.singleton_append, parseReduced_again _ _ hfirst, parseMasterAgain_short _ _ hp hne]
      exact ⟨_, rfl, rfl, hstate, fun hv => (hinvalid _ hv rfl hstate).elim⟩
  | @slaveACK pre hpre htype =>
    obtain ⟨tel₁, onNak, hheld, hrun⟩ := parseReduced_lead tel hslave hstate hpre htype []
    rw [List.append_nil] at hrun
    refine ⟨_, hrun, hheld.decoded.masterState, rfl, fun hv => ⟨?_, pre, hpre, rfl⟩⟩
    rcases m.type_cases with hbc | hmm | hms
    · exact absurd hbc htype
    · exact hmm
    · have hinvalid : Telegram.isValid { tel₁ with slaveState := SEQ_ERR_ACK_MISS } = false := by
        refine invalid_of_MS (hheld.decoded.type.trans hms) ?_
        show tel₁.masterState + SEQ_ERR_ACK_MISS ≠ SEQ_OK
        rw [hheld.decoded.masterState]
        decide
      exact absurd (hinvalid.symm.trans hv) (by decide)
  | @slave pre lead p s' hpre htype hs hlead hp hne =>
    obtain ⟨tel₁, l, hms, hok, hdrop, hrun⟩ := parseReduced_acked tel hslave hstate hpre htype (lead ++ p)
    rw [hrun]
    cases hlead with
    | none =>
      rw [parseSlave_short tel₁ l _ hms hdrop hp hne]
      exact hdone _ hms hok rfl (by decide)
    | again first x =>
      have htext : first.frame ++ [seqNak, x] ++ p = first.bytes ++ first.crc :: seqNak :: x :: p := by
        simp [Slave.frame]
      rw [parseSlave_frame tel₁ l _ first first.crc _ hms (hdrop.trans htext)]
      simp only [ne_eq, not_true_eq_false, if_false, if_true, and_false, parseSlaveAgain_short _ _ _ hp hne]
      exact hdone _ hms hok rfl (by decide)
  | @slaveAgain pre s' hpre htype hs =>
    obtain ⟨tel₁, l, hms, hok, hdrop, hrun⟩ := parseReduced_acked tel hslave hstate hpre htype (s'.frame ++ [seqNak])
    have htext : s'.frame ++ [seqNak] = s'.bytes ++ s'.crc :: [seqNak] := by simp [Slave.frame]
    rw [hrun, parseSlave_frame tel₁ l _ s' s'.crc _ hms (hdrop.trans htext)]
    simp only [ne_eq, not_true_eq_false, if_false, if_true, and_false, parseSlaveAgain_nothing]
    exact hdone _ hms hok rfl (by decide)
  | @masterACK pre lead s' hpre htype hs hlead =>
    obtain ⟨tel₁, l, hms, hok, hdrop, hrun⟩ := parseReduced_acked tel hslave hstate hpre htype (lead ++ s'.frame)
    rw [hrun]
    cases hlead with
    | none =>
      have htext : [] ++ s'.frame = s'.bytes ++ s'.crc :: [] := rfl
      rw [parseSlave_frame tel₁ l _ s' s'.crc _ hms (hdrop.trans htext)]
      simp only [ne_eq, not_true_eq_false, if_false, if_true]
      exact hdone _ hms rfl rfl (by decide)
    | again first x =>
      have htext : first.frame ++ [seqNak, x] ++ s'.frame =
          first.bytes ++ first.crc :: seqNak :: x :: (s'.bytes ++ s'.crc :: []) := by
        simp [Slave.frame]
      rw [parseSlave_frame tel₁ l _ first first.crc _ hms (hdrop.trans htext)]
      simp only [ne_eq, not_true_eq_false, if_false, if_true, and_false, parseSlaveAgain_frame]
      exact hdone _ hms rfl rfl (by decide)

end Blocks

end Telegram

/-- **A telegram that is cut off is told by what is missing**: wherever its extended form is cut, `parse` gives the
states of the beginning that is left, and the telegram is valid only if a master lacks its acknowledge byte. -/
theorem parse_cutOff (tel : Telegram) {l raw : List Byte} {m : Master} {s : Option Slave} (h : Encoded l m s)
    (hraw : raw <+: extendBytes l) (hne : raw ≠ extendBytes l) :
    ∃ tel', tel.parse ⟨raw, true⟩ = .ok (tel', ⟨reduceBytes raw, false⟩) ∧
      (∀ masterState slaveState, CutOff m s (reduceBytes raw) masterState slaveState ↔
        tel'.masterState = masterState ∧ tel'.slaveState = slaveState) ∧
      (tel'.isValid = true ↔ m.type = .MM ∧ ∃ pre, Lead pre ∧ reduceBytes raw = pre ++ m.frame) := by
  rw [extendBytes_eq_stuff] at hraw hne
  obtain ⟨hp, hproper⟩ := ebusCode.unstuff_prefix hraw
  rw [← reduceBytes_eq_unstuff] at hp hproper
  obtain ⟨masterState, slaveState, hcut⟩ := cutOff_of_encoded h hp (hproper hne)
  have hreduced := fun masterState slaveState (hcut : CutOff m s (reduceBytes raw) masterState slaveState) =>
    Telegram.parseReduced_cutOff tel.clear rfl rfl hcut
  obtain ⟨tel', hrun, -, haccept⟩ := tel.parse_spec ⟨raw, true⟩
  rw [Sequence.reduce_extended] at hrun haccept
  obtain ⟨tel₁, hrun₁, hmaster, hslave, hvalid⟩ := hreduced _ _ hcut
  have hparse : tel.parse ⟨raw, true⟩ = .ok (tel₁, ⟨reduceBytes raw, false⟩) := by
    rw [Telegram.parse, Sequence.reduce_extended, hrun₁]
    rfl
  obtain ⟨rfl, -⟩ := Prod.mk.inj (Except.ok.inj (hrun.symm.trans hparse))
  refine ⟨tel', hrun, fun masterState' slaveState' => ⟨fun hcut' => ?_, ?_⟩, hvalid, ?_⟩
  · obtain ⟨tel₂, hrun₂, hmaster', hslave', -⟩ := hreduced _ _ hcut'
    obtain rfl := Except.ok.inj (hrun₁.symm.trans hrun₂)
    exact ⟨hmaster', hslave'⟩
  · rintro ⟨hmaster', hslave'⟩
    rw [← hmaster', ← hslave', hmaster, hslave]
    exact hcut
  · rintro ⟨hmm, pre, hpre, htext⟩
    have hx : Exchange (m.frame ++ []) m none := .unanswered m [] (by rw [hmm]; decide) (by decide)
    rw [List.append_nil] at hx
    refine (haccept m none ?_).1
    show Accepted (reduceBytes raw) m none
    rw [htext]
    exact accepted_lead hpre hx

/-- `ff52b509030d060043` with the answer `03b0fbaad0`, cut in the middle of the escaped `aa`. -/
theorem parse_cutOff_sample :
    ∃ tel', ({} : Telegram).parse
        ⟨[0xff, 0x52, 0xb5, 0x09, 0x03, 0x0d, 0x06, 0x00, 0x43, 0x00, 0x03, 0xb0, 0xfb, 0xa9], true⟩ =
          .ok (tel', ⟨[0xff, 0x52, 0xb5, 0x09, 0x03, 0x0d, 0x06, 0x00, 0x43, 0x00, 0x03, 0xb0, 0xfb], false⟩) ∧
      tel'.masterState = SEQ_OK ∧ tel'.slaveState = SEQ_ERR_SHORT := by
  let m : Master := ⟨0xff, 0x52, 0xb5, 0x09, [0x0d, 0x06, 0x00], by decide, by decide, by decide⟩
  let s : Slave := ⟨[0xb0, 0xfb, 0xaa], by decide⟩
  let raw : List Byte := [0xff, 0x52, 0xb5, 0x09, 0x03, 0x0d, 0x06, 0x00, 0x43, 0x00, 0x03, 0xb0, 0xfb, 0xa9]
  have hencoded : Encoded (m.frame ++ [seqAck] ++ (s.frame ++ [seqAck])) m (some s) := .toSlave m s (by decide) .once .once
  have hraw : raw <+: extendBytes (m.frame ++ [seqAck] ++ (s.frame ++ [seqAck])) := by decide
  obtain ⟨tel', hrun, hstates, -⟩ := parse_cutOff {} hencoded hraw (by decide)
  have hcut : CutOff m (some s) ([] ++ (m.frame ++ seqAck :: ([] ++ [0x03, 0xb0, 0xfb]))) SEQ_OK SEQ_ERR_SHORT :=
    .slave .none (by decide) rfl .none (by decide) (by decide)
  have htext : reduceBytes raw = [] ++ (m.frame ++ seqAck :: ([] ++ [0x03, 0xb0, 0xfb])) := by decide
  rw [← htext] at hcut
  exact ⟨tel', hrun, (hstates _ _).1 hcut⟩

end EBusFsm
