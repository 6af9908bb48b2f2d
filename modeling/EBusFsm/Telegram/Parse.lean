import EBusFsm.Telegram.Parts

/-!
# What the parser accepts

`Accepted` is the language of reduced texts after whose `parse` the telegram `isValid`, with the
master and slave part that are then stored. It is the parser's own grammar, not the bus protocol: a
broadcast may be followed by anything, the acknowledge byte of a telegram between masters may be
missing or wrong, and only a repeated slave part must end the text.

`parse_spec` is the connection: `parse` never throws, a valid result comes from an accepted text, and
on an accepted text the result is valid and holds the two parts. The proof goes block by block; for
each block of `parse` one lemma evaluates it on a text split at its part, and two lemmas read off the
two directions.
-/

namespace EBusFsm

/-! ### The grammar -/

/-- What may follow the acknowledged master part of a master slave telegram. -/
inductive Answer : List Byte → Slave → Prop
  | plain (s : Slave) (rest : List Byte) : Answer (s.frame ++ seqAck :: rest) s
  | again (first s : Slave) (x : Byte) :
      Answer (first.frame ++ seqNak :: x :: (s.frame ++ [seqAck])) s

/-- The text from the last master part on. -/
inductive Exchange : List Byte → Master → Option Slave → Prop
  | unanswered (m : Master) (rest : List Byte) (htype : m.type ≠ .MS)
      (hnak : rest.head? ≠ some seqNak) : Exchange (m.frame ++ rest) m none
  | answered (m : Master) (s : Slave) (rest : List Byte) (htype : m.type = .MS)
      (hanswer : Answer rest s) : Exchange (m.frame ++ seqAck :: rest) m (some s)

/-- The texts that `parse` accepts. -/
inductive Accepted : List Byte → Master → Option Slave → Prop
  | broadcast (m : Master) (rest : List Byte) (htype : m.type = .BC) :
      Accepted (m.frame ++ rest) m none
  | once {l : List Byte} {m : Master} {s : Option Slave} (h : Exchange l m s) : Accepted l m s
  | again (first : Master) {l : List Byte} {m : Master} {s : Option Slave}
      (hfirst : first.type ≠ .BC) (h : Exchange l m s) :
      Accepted (first.frame ++ seqNak :: l) m s

theorem exchange_iff (l : List Byte) (m : Master) (s : Option Slave) :
    Exchange l m s ↔
      (m.type ≠ .MS ∧ s = none ∧ ∃ rest, l = m.frame ++ rest ∧ rest.head? ≠ some seqNak) ∨
      (m.type = .MS ∧ ∃ s' rest, s = some s' ∧ l = m.frame ++ seqAck :: rest ∧ Answer rest s') := by
  constructor
  · intro h
    cases h with
    | unanswered m rest htype hnak => exact .inl ⟨htype, rfl, rest, rfl, hnak⟩
    | answered m s rest htype hanswer => exact .inr ⟨htype, s, rest, rfl, rfl, hanswer⟩
  · rintro (⟨htype, rfl, rest, rfl, hnak⟩ | ⟨htype, s', rest, rfl, rfl, hanswer⟩)
    · exact .unanswered m rest htype hnak
    · exact .answered m s' rest htype hanswer

/-- The telegram holds the two parts. -/
structure Decoded (tel : Telegram) (m : Master) (s : Option Slave) : Prop where
  type : tel.type = m.type
  master : tel.master = ⟨extendBytes m.bytes, true⟩
  masterCRC : tel.masterCRC = m.crc
  masterState : tel.masterState = SEQ_OK
  slave : ∀ s', s = some s' → tel.slave = ⟨extendBytes s'.bytes, true⟩ ∧
    tel.slaveCRC = s'.crc ∧ tel.slaveState = SEQ_OK
  noSlave : s = none → tel.slave = {}

/-! ### The checks -/

theorem checkMasterSequence_frame (m : Master) (c : Byte) (rest : List Byte) :
    checkMasterSequence ⟨m.bytes ++ c :: rest, false⟩ = .ok SEQ_OK := by
  have hb := m.bound
  have hsize : Sequence.size ⟨m.bytes ++ c :: rest, false⟩ = 6 + m.data.length + rest.length := by
    simp only [Sequence.size, List.length_append, m.bytes_length, List.length_cons]
    omega
  have h0 : Sequence.byteAt ⟨m.bytes ++ c :: rest, false⟩ 0 = .ok m.qq := rfl
  have h1 : Sequence.byteAt ⟨m.bytes ++ c :: rest, false⟩ 1 = .ok m.zz := rfl
  have h4 : Sequence.byteAt ⟨m.bytes ++ c :: rest, false⟩ 4 = .ok m.nn := rfl
  simp only [checkMasterSequence, hsize, h0, h1, h4, m.source, m.target, ok_bind, m.nn_toNat]
  rw [if_neg (by omega), if_neg (by simp), if_neg (by simp), if_neg (by omega), if_neg (by omega)]
  rfl

theorem checkMasterSequence_reject (l : List Byte)
    (h : ∀ (m : Master) (c : Byte) (rest : List Byte), l ≠ m.bytes ++ c :: rest) :
    ∃ e, (SEQ_ERR_INVALID ≤ e ∧ e < SEQ_OK) ∧ checkMasterSequence ⟨l, false⟩ = .ok e := by
  by_cases hsize : l.length < 6
  · exact ⟨SEQ_ERR_SHORT, by decide, by simp [checkMasterSequence, Sequence.size, hsize]; rfl⟩
  obtain ⟨q, z, p, s, n, d, rfl⟩ : ∃ q z p s n d, l = q :: z :: p :: s :: n :: d := by
    rcases l with _ | ⟨q, _ | ⟨z, _ | ⟨p, _ | ⟨s, _ | ⟨n, d⟩⟩⟩⟩⟩ <;> simp at hsize
    exact ⟨q, z, p, s, n, d, rfl⟩
  have hlen : Sequence.size ⟨q :: z :: p :: s :: n :: d, false⟩ = 5 + d.length := by
    simp only [Sequence.size, List.length_cons]
    omega
  have h0 : Sequence.byteAt ⟨q :: z :: p :: s :: n :: d, false⟩ 0 = .ok q := rfl
  have h1 : Sequence.byteAt ⟨q :: z :: p :: s :: n :: d, false⟩ 1 = .ok z := rfl
  have h4 : Sequence.byteAt ⟨q :: z :: p :: s :: n :: d, false⟩ 4 = .ok n := rfl
  simp only [List.length_cons] at hsize
  simp only [checkMasterSequence, hlen, h0, h1, h4, ok_bind]
  rw [if_neg (by omega)]
  by_cases hq : isMaster q
  swap
  · exact ⟨SEQ_ERR_QQ, by decide, by simp [hq]; rfl⟩
  by_cases hz : isAddressValid z
  swap
  · exact ⟨SEQ_ERR_ZZ, by decide, by simp [hq, hz]; rfl⟩
  by_cases hn : n.toNat > seqMaxBytes
  · exact ⟨SEQ_ERR_NN, by decide, by simp [hq, hz, hn]; rfl⟩
  by_cases hshort : 5 + d.length < 5 + n.toNat + 1
  · exact ⟨SEQ_ERR_SHORT, by decide, by simp [hq, hz, hn, hshort]; rfl⟩
  obtain ⟨m, rest, _, hrest, he⟩ := exists_master (p := p) (s := s) hq hz (by omega)
    (by omega : n.toNat ≤ d.length)
  rcases rest with _ | ⟨c, rest⟩
  · simp only [List.length_nil] at hrest
    omega
  · exact absurd he (h m c rest)

theorem checkSlaveSequence_frame (s : Slave) (c : Byte) (rest : List Byte) :
    checkSlaveSequence ⟨s.bytes ++ c :: rest, false⟩ = .ok SEQ_OK := by
  have hb := s.bound
  have hsize : Sequence.size ⟨s.bytes ++ c :: rest, false⟩ = 2 + s.data.length + rest.length := by
    simp only [Sequence.size, List.length_append, s.bytes_length, List.length_cons]
    omega
  have h0 : Sequence.byteAt ⟨s.bytes ++ c :: rest, false⟩ 0 = .ok s.nn := rfl
  simp only [checkSlaveSequence, hsize, h0, ok_bind, s.nn_toNat]
  rw [if_neg (by omega), if_neg (by omega), if_neg (by omega)]
  rfl

theorem checkSlaveSequence_reject (l : List Byte)
    (h : ∀ (s : Slave) (c : Byte) (rest : List Byte), l ≠ s.bytes ++ c :: rest) :
    ∃ e, e ≠ SEQ_OK ∧ checkSlaveSequence ⟨l, false⟩ = .ok e := by
  by_cases hsize : l.length < 2
  · exact ⟨SEQ_ERR_SHORT, by decide, by simp [checkSlaveSequence, Sequence.size, hsize]; rfl⟩
  obtain ⟨n, d, rfl⟩ : ∃ n d, l = n :: d := by
    rcases l with _ | ⟨n, d⟩ <;> simp at hsize
    exact ⟨n, d, rfl⟩
  have hlen : Sequence.size ⟨n :: d, false⟩ = 1 + d.length := by
    simp only [Sequence.size, List.length_cons]
    omega
  have h0 : Sequence.byteAt ⟨n :: d, false⟩ 0 = .ok n := rfl
  simp only [List.length_cons] at hsize
  simp only [checkSlaveSequence, hlen, h0, ok_bind]
  rw [if_neg (by omega)]
  by_cases hn : n.toNat > seqMaxBytes
  · exact ⟨SEQ_ERR_NN, by decide, by simp [hn]; rfl⟩
  by_cases hshort : 1 + d.length < 1 + n.toNat + 1
  · exact ⟨SEQ_ERR_SHORT, by decide, by simp [hn, hshort]; rfl⟩
  obtain ⟨s, rest, _, hrest, he⟩ := exists_slave (by omega) (by omega : n.toNat ≤ d.length)
  rcases rest with _ | ⟨c, rest⟩
  · simp only [List.length_nil] at hrest
    omega
  · exact absurd he (h s c rest)

/-! ### The blocks of `parse` -/

namespace Telegram

theorem isValid_of_MS {tel : Telegram} (h : tel.type = .MS) :
    tel.isValid = true ↔ tel.masterState + tel.slaveState = SEQ_OK := by
  simp [isValid, h]

theorem isValid_of_ne_MS {tel : Telegram} (h : tel.type ≠ .MS) :
    tel.isValid = true ↔ tel.masterState = SEQ_OK := by
  simp [isValid, h]

/-- The telegram after the slave part `s` was accepted and acknowledged by the master. -/
def answered (tel : Telegram) (s : Slave) : Telegram :=
  { tel.withSlave s ⟨extendBytes s.bytes, true⟩ s.crc SEQ_OK with masterACK := seqAck }

theorem slice_master (m : Master) (c : Byte) (rest : List Byte) :
    Sequence.slice ⟨m.bytes ++ c :: rest, false⟩ 0 (5 + m.data.length + 1) =
      .ok ⟨m.bytes ++ [c], false⟩ := by
  have hl : (m.bytes ++ [c]).length = 5 + m.data.length + 1 := by simp
  rw [Sequence.slice_eq _ _ _ (by omega) (by simp [Sequence.size]), List.drop_zero,
    List.append_cons, ← hl, List.take_left]

theorem slice_slave (l : List Byte) (s : Slave) (c : Byte) (rest : List Byte) :
    Sequence.slice ⟨l ++ (s.bytes ++ c :: rest), false⟩ l.length (1 + s.data.length + 1) =
      .ok ⟨s.bytes ++ [c], false⟩ := by
  have hl : (s.bytes ++ [c]).length = 1 + s.data.length + 1 := by simp
  rw [Sequence.slice_append _ _ _ _ (by omega) (by simp), List.append_cons, ← hl,
    List.take_left]

theorem byteAt_slave (l : List Byte) (s : Slave) (rest : List Byte) :
    Sequence.byteAt ⟨l ++ (s.bytes ++ rest), false⟩ l.length = .ok s.nn := by
  rw [Slave.bytes, List.cons_append]
  exact Sequence.byteAt_append_cons _ _ _ _ _ rfl

theorem parseSlaveAgain_frame (tel : Telegram) (first s : Slave) (x c : Byte) (rest : List Byte) :
    tel.parseSlaveAgain ⟨first.frame ++ seqNak :: x :: (s.bytes ++ c :: rest), false⟩
        ⟨first.frame, false⟩ =
      let tel := tel.withSlave s ⟨extendBytes s.bytes, true⟩ c
        (if s.crc = c then SEQ_OK else SEQ_ERR_CRC)
      match rest with
      | [] => .ok { tel with masterState := SEQ_ERR_ACK_MISS }
      | a :: rest =>
        if a ≠ seqAck ∧ a ≠ seqNak then
          .ok { tel with masterACK := a, masterState := SEQ_ERR_ACK }
        else if rest ≠ [] then
          .ok { tel with masterACK := a, slaveState := SEQ_ERR_LONG, slave := {} }
        else if a = seqNak then .ok { tel with masterACK := a, slaveState := SEQ_ERR_INVALID }
        else .ok { tel with masterACK := a } := by
  have htext : first.frame ++ seqNak :: x :: (s.bytes ++ c :: rest) =
      (first.frame ++ [seqNak, x]) ++ (s.bytes ++ c :: rest) := by simp
  have hoff : Sequence.size ⟨first.frame, false⟩ + 2 = (first.frame ++ [seqNak, x]).length := by
    simp [Sequence.size]
  have hsize : ¬ Sequence.size ⟨(first.frame ++ [seqNak, x]) ++ (s.bytes ++ c :: rest), false⟩ <
      (first.frame ++ [seqNak, x]).length := by
    simp only [Sequence.size, List.length_append]
    omega
  rw [htext, parseSlaveAgain, hoff]
  simp only [if_neg hsize, Sequence.slice_append_zero, ok_bind, checkSlaveSequence_frame,
    ne_eq, not_true_eq_false, if_false, byteAt_slave, Slave.nn_toNat, slice_slave,
    createSlave_full, withSlave]
  rcases rest with _ | ⟨a, rest⟩
  · simp [Sequence.size]
    rfl
  · have ha : Sequence.byteAt ⟨s.bytes ++ c :: a :: rest, false⟩ (1 + s.data.length + 1) =
        .ok a := by
      rw [List.append_cons]
      exact Sequence.byteAt_append_cons _ _ _ _ _ (by simp)
    simp only [Sequence.size, List.length_append, Slave.bytes_length, List.length_cons, ha, ok_bind]
    rw [if_neg (by omega)]
    by_cases hinv : a ≠ seqAck ∧ a ≠ seqNak
    · simp only [if_pos hinv]
      rfl
    · simp only [if_neg hinv]
      rcases rest with _ | ⟨b, rest⟩
      · simp only [List.length_nil, not_true_eq_false, if_false]
        rw [if_neg (by omega)]
        rfl
      · simp only [List.length_cons, reduceCtorEq, not_false_eq_true, if_true]
        rw [if_pos (by omega)]
        rfl

/-- The rest after the NAK of the master is too short or does not continue with a slave part. -/
theorem parseSlaveAgain_reject (tel : Telegram) (first : Slave) (rest : List Byte)
    (h : ∀ (x : Byte) (s : Slave) (c : Byte) (r : List Byte), rest ≠ x :: (s.bytes ++ c :: r)) :
    ∃ tel', tel.parseSlaveAgain ⟨first.frame ++ seqNak :: rest, false⟩ ⟨first.frame, false⟩ =
      .ok tel' ∧ tel'.type = tel.type ∧ tel'.masterState = tel.masterState ∧
        tel'.slaveState ≠ SEQ_OK := by
  rcases rest with _ | ⟨x, rest⟩
  · refine ⟨{ tel with slaveState := SEQ_ERR_SHORT }, ?_, rfl, rfl, by simp; decide⟩
    simp [parseSlaveAgain, Sequence.size]
    rfl
  · obtain ⟨e, he, hcheck⟩ := checkSlaveSequence_reject rest fun s c r hr => h x s c r (by rw [hr])
    have htext : first.frame ++ seqNak :: x :: rest = (first.frame ++ [seqNak, x]) ++ rest := by simp
    have hoff : Sequence.size ⟨first.frame, false⟩ + 2 = (first.frame ++ [seqNak, x]).length := by
      simp [Sequence.size]
    have hsize : ¬ Sequence.size ⟨(first.frame ++ [seqNak, x]) ++ rest, false⟩ <
        (first.frame ++ [seqNak, x]).length := by
      simp only [Sequence.size, List.length_append]
      omega
    refine ⟨{ tel with slave := {}, slaveState := e }, ?_, rfl, rfl, he⟩
    rw [htext, parseSlaveAgain, hoff]
    simp only [if_neg hsize, Sequence.slice_append_zero, ok_bind, hcheck, ne_eq, he,
      not_false_eq_true, if_true]
    rfl

theorem parseSlaveAgain_accept (tel : Telegram) (first s : Slave) (x : Byte) :
    tel.parseSlaveAgain ⟨first.frame ++ seqNak :: x :: (s.frame ++ [seqAck]), false⟩
      ⟨first.frame, false⟩ = .ok (tel.answered s) := by
  have htext : s.frame ++ [seqAck] = s.bytes ++ s.crc :: [seqAck] := by simp [Slave.frame]
  rw [htext, parseSlaveAgain_frame]
  simp [show seqAck ≠ seqNak by decide, answered, withSlave]

theorem parseSlaveAgain_valid (tel : Telegram) (first : Slave) (rest : List Byte)
    (htype : tel.type = .MS) (hstate : tel.masterState = SEQ_OK) :
    ∃ tel', tel.parseSlaveAgain ⟨first.frame ++ seqNak :: rest, false⟩ ⟨first.frame, false⟩ =
      .ok tel' ∧ (tel'.isValid = true →
        ∃ x s, rest = x :: (s.frame ++ [seqAck]) ∧ tel' = tel.answered s) := by
  by_cases hpart : ∃ (x : Byte) (s : Slave) (c : Byte) (r : List Byte),
      rest = x :: (s.bytes ++ c :: r)
  swap
  · simp only [not_exists] at hpart
    obtain ⟨tel', hrun, htype', hstate', he⟩ := tel.parseSlaveAgain_reject first rest hpart
    refine ⟨tel', hrun, fun hv => absurd ?_ he⟩
    rw [isValid_of_MS (htype'.trans htype), hstate', hstate] at hv
    simpa [SEQ_OK] using hv
  obtain ⟨x, s, c, r, rfl⟩ := hpart
  rw [parseSlaveAgain_frame]
  rcases r with _ | ⟨a, r⟩
  · refine ⟨_, rfl, fun hv => ?_⟩
    rw [isValid_of_MS (by exact htype)] at hv
    simp only [withSlave] at hv
    split_ifs at hv <;> exact absurd hv (by decide)
  simp only
  by_cases hinv : a ≠ seqAck ∧ a ≠ seqNak
  · rw [if_pos hinv]
    refine ⟨_, rfl, fun hv => ?_⟩
    rw [isValid_of_MS (by exact htype)] at hv
    simp only [withSlave] at hv
    split_ifs at hv <;> exact absurd hv (by decide)
  rw [if_neg hinv]
  by_cases hlong : r ≠ []
  · rw [if_pos hlong]
    refine ⟨_, rfl, fun hv => ?_⟩
    rw [isValid_of_MS (by exact htype)] at hv
    simp only [withSlave, hstate] at hv
    exact absurd hv (by decide)
  rw [if_neg hlong]
  by_cases hnak : a = seqNak
  · rw [if_pos hnak]
    refine ⟨_, rfl, fun hv => ?_⟩
    rw [isValid_of_MS (by exact htype)] at hv
    simp only [withSlave, hstate] at hv
    exact absurd hv (by decide)
  rw [if_neg hnak]
  refine ⟨_, rfl, fun hv => ?_⟩
  rw [isValid_of_MS (by exact htype)] at hv
  simp only [withSlave, hstate] at hv
  have ha : a = seqAck := by
    by_contra hne
    exact hinv ⟨hne, hnak⟩
  have hr : r = [] := not_not.1 hlong
  by_cases hcrc : s.crc = c
  · subst hcrc ha hr
    exact ⟨x, s, by simp [Slave.frame], by simp [answered, withSlave]⟩
  · rw [if_neg hcrc] at hv
    exact absurd hv (by decide)

theorem parseSlave_ne_MS (tel : Telegram) (seq : Sequence) (offset : Nat) (h : tel.type ≠ .MS) :
    tel.parseSlave seq offset = .ok tel := by
  simp only [parseSlave, ne_eq, h, not_false_eq_true, if_true]
  rfl

theorem parseSlave_frame (tel : Telegram) (l : List Byte) (offset : Nat) (s : Slave) (c : Byte)
    (rest : List Byte) (htype : tel.type = .MS) :
    l.drop (offset + (5 + tel.masterNN + 2)) = s.bytes ++ c :: rest →
    tel.parseSlave ⟨l, false⟩ offset =
      let tel := tel.withSlave s ⟨extendBytes s.bytes, true⟩ c
        (if s.crc = c then SEQ_OK else SEQ_ERR_CRC)
      if s.crc ≠ c then .ok tel
      else match rest with
        | [] => .ok { tel with masterState := SEQ_ERR_ACK_MISS }
        | a :: rest =>
          if a ≠ seqAck ∧ a ≠ seqNak then
            .ok { tel with masterACK := a, masterState := SEQ_ERR_ACK }
          else if a = seqNak then
            { tel with masterACK := a }.parseSlaveAgain ⟨s.frame ++ seqNak :: rest, false⟩
              ⟨s.frame, false⟩
          else .ok { tel with masterACK := a } := by
  intro hl
  have hslice : Sequence.slice ⟨s.bytes ++ c :: rest, false⟩ 0 (1 + s.data.length + 1) =
      .ok ⟨s.bytes ++ [c], false⟩ := slice_slave [] s c rest
  have h0 : Sequence.byteAt ⟨s.bytes ++ c :: rest, false⟩ 0 = .ok s.nn := rfl
  simp only [parseSlave, htype, ne_eq, not_true_eq_false, if_false, Sequence.slice_zero, ok_bind, hl,
    checkSlaveSequence_frame, h0, Slave.nn_toNat, hslice, createSlave_full, withSlave]
  by_cases hcrc : s.crc = c
  swap
  · simp only [hcrc, if_false, not_false_eq_true, if_true, show SEQ_ERR_CRC ≠ SEQ_OK by decide]
    rfl
  subst hcrc
  simp only [if_true, not_true_eq_false, if_false]
  rcases rest with _ | ⟨a, rest⟩
  · simp [Sequence.size]
    rfl
  · have ha : Sequence.byteAt ⟨s.bytes ++ s.crc :: a :: rest, false⟩ (1 + s.data.length + 1) =
        .ok a := by
      rw [List.append_cons]
      exact Sequence.byteAt_append_cons _ _ _ _ _ (by simp)
    simp only [Sequence.size, List.length_append, Slave.bytes_length, List.length_cons, ha, ok_bind]
    rw [if_neg (by omega)]
    by_cases hinv : a ≠ seqAck ∧ a ≠ seqNak
    · simp only [if_pos hinv]
      rfl
    · simp only [if_neg hinv]
      by_cases hnak : a = seqNak
      · subst hnak
        simp only [if_true, Slave.frame, List.append_assoc, List.singleton_append]
      · simp only [if_neg hnak]
        rfl

theorem parseSlave_reject (tel : Telegram) (l : List Byte) (offset : Nat) (htype : tel.type = .MS)
    (h : ∀ (s : Slave) (c : Byte) (rest : List Byte),
      l.drop (offset + (5 + tel.masterNN + 2)) ≠ s.bytes ++ c :: rest) :
    ∃ e, e ≠ SEQ_OK ∧ tel.parseSlave ⟨l, false⟩ offset = .ok { tel with slaveState := e } := by
  obtain ⟨e, he, hcheck⟩ := checkSlaveSequence_reject _ h
  refine ⟨e, he, ?_⟩
  simp only [parseSlave, htype, ne_eq, not_true_eq_false, if_false, Sequence.slice_zero, ok_bind,
    hcheck, he, not_false_eq_true, if_true]
  rfl

theorem parseSlave_accept (tel : Telegram) (l : List Byte) (offset : Nat) (htype : tel.type = .MS)
    {r : List Byte} {s : Slave} (hl : l.drop (offset + (5 + tel.masterNN + 2)) = r)
    (h : Answer r s) : tel.parseSlave ⟨l, false⟩ offset = .ok (tel.answered s) := by
  cases h with
  | plain s rest =>
    have htext : s.frame ++ seqAck :: rest = s.bytes ++ s.crc :: seqAck :: rest := by
      simp [Slave.frame]
    rw [parseSlave_frame tel l offset s s.crc (seqAck :: rest) htype (hl.trans htext)]
    simp [show seqAck ≠ seqNak by decide, answered, withSlave]
  | again first s x =>
    have htext : first.frame ++ seqNak :: x :: (s.frame ++ [seqAck]) =
        first.bytes ++ first.crc :: seqNak :: x :: (s.frame ++ [seqAck]) := by
      simp [Slave.frame]
    rw [parseSlave_frame tel l offset first first.crc _ htype (hl.trans htext)]
    simp only [ne_eq, not_true_eq_false, if_false, and_false, if_true]
    rw [parseSlaveAgain_accept]
    rfl

theorem parseSlave_valid (tel : Telegram) (l : List Byte) (offset : Nat) (htype : tel.type = .MS)
    (hstate : tel.masterState = SEQ_OK) :
    ∃ tel', tel.parseSlave ⟨l, false⟩ offset = .ok tel' ∧ (tel'.isValid = true →
      ∃ s, Answer (l.drop (offset + (5 + tel.masterNN + 2))) s ∧ tel' = tel.answered s) := by
  by_cases hpart : ∃ (s : Slave) (c : Byte) (rest : List Byte),
      l.drop (offset + (5 + tel.masterNN + 2)) = s.bytes ++ c :: rest
  swap
  · simp only [not_exists] at hpart
    obtain ⟨e, he, hrun⟩ := tel.parseSlave_reject l offset htype hpart
    refine ⟨_, hrun, fun hv => absurd ?_ he⟩
    rw [isValid_of_MS (by exact htype), hstate] at hv
    simpa [SEQ_OK] using hv
  obtain ⟨s, c, rest, hl⟩ := hpart
  rw [parseSlave_frame tel l offset s c rest htype hl, hl]
  by_cases hcrc : s.crc = c
  swap
  · simp only [ne_eq, hcrc, not_false_eq_true, if_true, if_false]
    refine ⟨_, rfl, fun hv => ?_⟩
    rw [isValid_of_MS (by exact htype)] at hv
    simp only [withSlave, hstate] at hv
    exact absurd hv (by decide)
  subst hcrc
  simp only [ne_eq, not_true_eq_false, if_false, if_true]
  rcases rest with _ | ⟨a, rest⟩
  · refine ⟨_, rfl, fun hv => ?_⟩
    rw [isValid_of_MS (by exact htype)] at hv
    simp only [withSlave] at hv
    exact absurd hv (by decide)
  have htext : s.bytes ++ s.crc :: a :: rest = s.frame ++ a :: rest := by simp [Slave.frame]
  simp only [htext]
  by_cases hinv : a ≠ seqAck ∧ a ≠ seqNak
  · rw [if_pos hinv]
    refine ⟨_, rfl, fun hv => ?_⟩
    rw [isValid_of_MS (by exact htype)] at hv
    simp only [withSlave] at hv
    exact absurd hv (by decide)
  rw [if_neg hinv]
  by_cases hnak : a = seqNak
  · subst hnak
    simp only [if_true]
    obtain ⟨tel', hrun, hvalid⟩ := parseSlaveAgain_valid
      { tel.withSlave s ⟨extendBytes s.bytes, true⟩ s.crc SEQ_OK with masterACK := seqNak } s rest
      htype hstate
    refine ⟨tel', hrun, fun hv => ?_⟩
    obtain ⟨x, s', rfl, rfl⟩ := hvalid hv
    exact ⟨s', .again s s' x, rfl⟩
  · rw [if_neg hnak]
    have ha : a = seqAck := by
      by_contra hne
      exact hinv ⟨hne, hnak⟩
    subst ha
    exact ⟨_, rfl, fun _ => ⟨s, .plain s rest, rfl⟩⟩

/-- The step that `parseAck` and `parseMasterAgain` share: the acknowledge byte of the slave. -/
def awaitAck (tel : Telegram) (rest : List Byte) (onNak onAck : Telegram → Except OutOfRange Telegram) :
    Except OutOfRange Telegram :=
  match rest with
  | [] => .ok { tel with slaveState := SEQ_ERR_ACK_MISS }
  | a :: _ =>
    let tel := { tel with slaveACK := a }
    if a ≠ seqAck ∧ a ≠ seqNak then .ok { tel with slaveState := SEQ_ERR_ACK }
    else if a = seqNak then onNak tel
    else onAck tel

theorem drop_frame (l : List Byte) (m : Master) (a : Byte) (r : List Byte) (offset : Nat)
    (h : l.length = offset) :
    (l ++ (m.frame ++ a :: r)).drop (offset + (5 + m.data.length + 2)) = r := by
  have htext : l ++ (m.frame ++ a :: r) = (l ++ m.frame ++ [a]) ++ r := by simp
  have hlen : offset + (5 + m.data.length + 2) = (l ++ m.frame ++ [a]).length := by
    simp only [List.length_append, Master.frame_length, List.length_singleton]
    omega
  rw [htext, hlen, List.drop_left]

theorem parseAck_frame (tel : Telegram) (m : Master) (rest : List Byte)
    (hnn : tel.masterNN = m.data.length) :
    tel.parseAck ⟨m.frame ++ rest, false⟩ ⟨m.bytes ++ [m.crc], false⟩ =
      awaitAck tel rest
        (fun tel => tel.parseMasterAgain ⟨m.frame ++ rest, false⟩ ⟨m.bytes ++ [m.crc], false⟩)
        (fun tel => tel.parseSlave ⟨m.frame ++ rest, false⟩ 0) := by
  rcases rest with _ | ⟨a, rest⟩
  · simp [parseAck, awaitAck, Sequence.size, hnn]
    rw [if_pos (by omega)]
    rfl
  · have ha : Sequence.byteAt ⟨m.frame ++ a :: rest, false⟩ (5 + m.data.length + 1) = .ok a :=
      Sequence.byteAt_append_cons _ _ _ _ _ (by rw [m.frame_length]; omega)
    simp only [parseAck, awaitAck, Sequence.size, List.length_append, Master.frame_length,
      List.length_cons, hnn, ha, ok_bind]
    rw [if_neg (by omega)]
    split_ifs <;> rfl

theorem parseMasterAgain_frame (tel : Telegram) (first m : Master) (c : Byte) (rest : List Byte) :
    tel.parseMasterAgain ⟨first.frame ++ seqNak :: (m.bytes ++ c :: rest), false⟩
        ⟨first.bytes ++ [first.crc], false⟩ =
      let tel := tel.withMaster m ⟨extendBytes m.bytes, true⟩ c
        (if m.crc = c then SEQ_OK else SEQ_ERR_CRC)
      if m.crc ≠ c then .ok tel
      else awaitAck tel rest
        (fun tel => .ok { tel with
          masterState := if rest.length > 1 then SEQ_ERR_LONG else SEQ_ERR_INVALID })
        (fun tel => tel.parseSlave ⟨first.frame ++ seqNak :: (m.bytes ++ c :: rest), false⟩
          (first.frame.length + 1)) := by
  have htext : first.frame ++ seqNak :: (m.bytes ++ c :: rest) =
      (first.frame ++ [seqNak]) ++ (m.bytes ++ c :: rest) := by simp
  have hoff : Sequence.size ⟨first.bytes ++ [first.crc], false⟩ + 1 =
      (first.frame ++ [seqNak]).length := by
    simp [Sequence.size, Master.frame]
  have hlen : first.frame.length + 1 = (first.frame ++ [seqNak]).length := by simp
  have hsize : ¬ Sequence.size ⟨(first.frame ++ [seqNak]) ++ (m.bytes ++ c :: rest), false⟩ <
      (first.frame ++ [seqNak]).length := by
    simp only [Sequence.size, List.length_append]
    omega
  have h4 : Sequence.byteAt ⟨m.bytes ++ c :: rest, false⟩ 4 = .ok m.nn := rfl
  rw [htext, parseMasterAgain, hoff, hlen]
  simp only [if_neg hsize, Sequence.slice_append_zero, ok_bind, checkMasterSequence_frame,
    ne_eq, not_true_eq_false, if_false, h4, Master.nn_toNat, slice_master, createMaster_full,
    withMaster]
  by_cases hcrc : m.crc = c
  swap
  · simp only [hcrc, if_false, not_false_eq_true, if_true, show SEQ_ERR_CRC ≠ SEQ_OK by decide]
    rfl
  subst hcrc
  simp only [if_true, not_true_eq_false, if_false]
  rcases rest with _ | ⟨a, rest⟩
  · simp [Sequence.size, awaitAck]
    rfl
  · have ha : Sequence.byteAt ⟨m.bytes ++ m.crc :: a :: rest, false⟩ (5 + m.data.length + 1) =
        .ok a := by
      rw [List.append_cons]
      exact Sequence.byteAt_append_cons _ _ _ _ _ (by simp)
    simp only [Sequence.size, List.length_append, Master.bytes_length, List.length_cons, ha, ok_bind,
      awaitAck]
    rw [if_neg (by omega)]
    by_cases hinv : a ≠ seqAck ∧ a ≠ seqNak
    · simp only [if_pos hinv]
      rfl
    · simp only [if_neg hinv]
      by_cases hnak : a = seqNak
      · simp only [if_pos hnak]
        by_cases hlong : rest.length + 1 > 1
        · rw [if_pos (by omega), if_pos hlong]
          rfl
        · rw [if_neg (by omega), if_neg hlong]
          rfl
      · simp only [if_neg hnak]

/-- The telegram after the master part `m` was accepted and before anything else was read. -/
structure Held (tel : Telegram) (m : Master) : Prop where
  decoded : Decoded tel m none
  masterNN : tel.masterNN = m.data.length
  slaveState : tel.slaveState = SEQ_EMPTY

theorem held_withMaster {tel : Telegram} (m : Master) (hslave : tel.slave = {})
    (hstate : tel.slaveState = SEQ_EMPTY) :
    Held (tel.withMaster m ⟨extendBytes m.bytes, true⟩ m.crc SEQ_OK) m :=
  ⟨⟨rfl, rfl, rfl, rfl, nofun, fun _ => hslave⟩, rfl, hstate⟩

theorem decoded_answered {tel : Telegram} {m : Master} (h : Decoded tel m none) (s : Slave) :
    Decoded (tel.answered s) m (some s) := by
  refine ⟨h.type, h.master, h.masterCRC, h.masterState, fun s' hs => ?_, nofun⟩
  cases hs
  exact ⟨rfl, rfl, rfl⟩

theorem isValid_answered {tel : Telegram} {m : Master} (h : Decoded tel m none) (s : Slave) :
    (tel.answered s).isValid = true := by
  have hstate : (tel.answered s).masterState = SEQ_OK := h.masterState
  rw [isValid, hstate]
  split_ifs <;> rfl

theorem decoded_congr {tel tel' : Telegram} {m : Master} (h : Decoded tel m none)
    (htype : tel'.type = tel.type) (hmaster : tel'.master = tel.master)
    (hcrc : tel'.masterCRC = tel.masterCRC) (hstate : tel'.masterState = tel.masterState)
    (hslave : tel'.slave = tel.slave) : Decoded tel' m none :=
  ⟨htype.trans h.type, hmaster.trans h.master, hcrc.trans h.masterCRC, hstate.trans h.masterState,
    nofun, fun _ => hslave.trans (h.noSlave rfl)⟩

theorem awaitAck_accept {tel : Telegram} {m : Master} (htel : Held tel m) {rest : List Byte}
    {s : Option Slave} (h : Exchange (m.frame ++ rest) m s)
    (onNak : Telegram → Except OutOfRange Telegram) (l : List Byte) (offset : Nat)
    (hl : ∀ a r, rest = a :: r → l.drop (offset + (5 + m.data.length + 2)) = r) :
    ∃ tel', awaitAck tel rest onNak (fun tel => tel.parseSlave ⟨l, false⟩ offset) = .ok tel' ∧
      tel'.isValid = true ∧ Decoded tel' m s := by
  rcases (exchange_iff _ _ _).1 h with ⟨htype, rfl, rest', he, hnak⟩ | ⟨htype, s', r, rfl, he, ha⟩
  · obtain rfl : rest = rest' := List.append_cancel_left he
    have hvalid : ∀ tel' : Telegram, Decoded tel' m none → tel'.isValid = true := by
      intro tel' h'
      rw [isValid_of_ne_MS (by rw [h'.type]; exact htype), h'.masterState]
    rcases rest with _ | ⟨a, r⟩
    · have hd : Decoded { tel with slaveState := SEQ_ERR_ACK_MISS } m none :=
        decoded_congr htel.decoded rfl rfl rfl rfl rfl
      exact ⟨_, rfl, hvalid _ hd, hd⟩
    · have hne : a ≠ seqNak := fun h => hnak (by simp [h])
      by_cases hack : a = seqAck
      · have hd : Decoded { tel with slaveACK := a } m none :=
          decoded_congr htel.decoded rfl rfl rfl rfl rfl
        refine ⟨_, ?_, hvalid _ hd, hd⟩
        simp only [awaitAck, hack, ne_eq, not_true_eq_false, false_and, if_false,
          show seqAck ≠ seqNak by decide]
        exact parseSlave_ne_MS _ _ _ (by rw [hd.type.symm.trans hd.type, ← hd.type] at htype; exact htype)
      · have hd : Decoded { tel with slaveACK := a, slaveState := SEQ_ERR_ACK } m none :=
          decoded_congr htel.decoded rfl rfl rfl rfl rfl
        refine ⟨_, ?_, hvalid _ hd, hd⟩
        simp only [awaitAck, ne_eq, hack, hne, not_false_eq_true, and_self, if_true]
  · obtain rfl : rest = seqAck :: r := List.append_cancel_left he
    have hd : Decoded { tel with slaveACK := seqAck } m none :=
      decoded_congr htel.decoded rfl rfl rfl rfl rfl
    refine ⟨_, ?_, isValid_answered hd s', decoded_answered hd s'⟩
    simp only [awaitAck, ne_eq, not_true_eq_false, false_and, if_false,
      show seqAck ≠ seqNak by decide]
    refine parseSlave_accept _ _ _ (hd.type.trans htype) ?_ ha
    rw [show Telegram.masterNN { tel with slaveACK := seqAck } = m.data.length from htel.masterNN]
    exact hl _ _ rfl

theorem awaitAck_valid {tel : Telegram} {m : Master} (htel : Held tel m) (rest : List Byte)
    (onNak : Telegram → Except OutOfRange Telegram) (l : List Byte) (offset : Nat)
    (hl : ∀ a r, rest = a :: r → l.drop (offset + (5 + m.data.length + 2)) = r)
    (P : Telegram → Prop)
    (hnak : ∀ r, rest = seqNak :: r → ∃ tel', onNak { tel with slaveACK := seqNak } = .ok tel' ∧
      (tel'.isValid = true → P tel'))
    (hexchange : ∀ s tel', Exchange (m.frame ++ rest) m s → Decoded tel' m s → P tel') :
    ∃ tel', awaitAck tel rest onNak (fun tel => tel.parseSlave ⟨l, false⟩ offset) = .ok tel' ∧
      (tel'.isValid = true → P tel') := by
  have hMS : ∀ tel' : Telegram, Decoded tel' m none → tel'.isValid = true →
      ∀ e, tel'.slaveState = e → e ≠ SEQ_OK → m.type ≠ .MS := by
    rintro tel' h' hv e rfl hne htype
    rw [isValid_of_MS (h'.type.trans htype), h'.masterState] at hv
    exact hne (by simpa [SEQ_OK] using hv)
  rcases rest with _ | ⟨a, r⟩
  · have hd : Decoded { tel with slaveState := SEQ_ERR_ACK_MISS } m none :=
      decoded_congr htel.decoded rfl rfl rfl rfl rfl
    refine ⟨_, rfl, fun hv => hexchange none _ (.unanswered m [] ?_ (by simp)) hd⟩
    exact hMS _ hd hv SEQ_ERR_ACK_MISS rfl (by decide)
  by_cases hinv : a ≠ seqAck ∧ a ≠ seqNak
  · have hd : Decoded { tel with slaveACK := a, slaveState := SEQ_ERR_ACK } m none :=
      decoded_congr htel.decoded rfl rfl rfl rfl rfl
    refine ⟨_, by simp only [awaitAck, if_pos hinv]; rfl, fun hv => ?_⟩
    refine hexchange none _ (.unanswered m (a :: r) ?_ (by simpa using hinv.2)) hd
    exact hMS _ hd hv SEQ_ERR_ACK rfl (by decide)
  by_cases hn : a = seqNak
  · subst hn
    obtain ⟨tel', hrun, hP⟩ := hnak r rfl
    refine ⟨tel', ?_, hP⟩
    simp only [awaitAck, if_neg hinv, if_true]
    exact hrun
  obtain rfl : a = seqAck := by
    by_contra hne
    exact hinv ⟨hne, hn⟩
  have hd : Decoded { tel with slaveACK := seqAck } m none :=
    decoded_congr htel.decoded rfl rfl rfl rfl rfl
  simp only [awaitAck, if_neg hinv, if_neg hn]
  by_cases htype : m.type = .MS
  · obtain ⟨tel', hrun, hv⟩ := parseSlave_valid { tel with slaveACK := seqAck } l offset
      (hd.type.trans htype) hd.masterState
    refine ⟨tel', hrun, fun hvalid => ?_⟩
    obtain ⟨s, ha, rfl⟩ := hv hvalid
    rw [show Telegram.masterNN { tel with slaveACK := seqAck } = m.data.length from htel.masterNN,
      hl _ _ rfl] at ha
    exact hexchange (some s) _ (.answered m s r htype ha) (decoded_answered hd s)
  · have hne : Telegram.type { tel with slaveACK := seqAck } ≠ .MS := by
      rw [hd.type]
      exact htype
    exact ⟨_, parseSlave_ne_MS _ _ _ hne,
      fun _ => hexchange none _ (.unanswered m (seqAck :: r) htype (by simp; decide)) hd⟩

theorem exchange_frame {l : List Byte} {m : Master} {s : Option Slave} (h : Exchange l m s) :
    ∃ rest, l = m.frame ++ rest := by
  cases h with
  | unanswered m rest => exact ⟨rest, rfl⟩
  | answered m s rest => exact ⟨seqAck :: rest, rfl⟩

theorem parseMasterAgain_accept (tel : Telegram) (first : Master) {l : List Byte} {m : Master}
    {s : Option Slave} (hslave : tel.slave = {}) (hstate : tel.slaveState = SEQ_EMPTY)
    (h : Exchange l m s) :
    ∃ tel', tel.parseMasterAgain ⟨first.frame ++ seqNak :: l, false⟩
        ⟨first.bytes ++ [first.crc], false⟩ = .ok tel' ∧
      tel'.isValid = true ∧ Decoded tel' m s := by
  obtain ⟨rest, rfl⟩ := exchange_frame h
  have htext : m.frame ++ rest = m.bytes ++ m.crc :: rest := by simp [Master.frame]
  rw [htext, parseMasterAgain_frame]
  simp only [ne_eq, not_true_eq_false, if_false, if_true]
  refine awaitAck_accept (held_withMaster m hslave hstate) h _ _ _ fun a r hr => ?_
  rw [← htext, hr, List.append_cons]
  exact drop_frame _ m a r _ (by simp)

theorem parseMasterAgain_valid (tel : Telegram) (first : Master) (l : List Byte)
    (hslave : tel.slave = {}) (hstate : tel.slaveState = SEQ_EMPTY) :
    ∃ tel', tel.parseMasterAgain ⟨first.frame ++ seqNak :: l, false⟩
        ⟨first.bytes ++ [first.crc], false⟩ = .ok tel' ∧
      (tel'.isValid = true → ∃ m s, Exchange l m s ∧ Decoded tel' m s) := by
  have hfail : ∀ tel' : Telegram, tel'.slaveState = SEQ_EMPTY →
      SEQ_ERR_INVALID ≤ tel'.masterState ∧ tel'.masterState < SEQ_OK → tel'.isValid ≠ true := by
    rintro tel' hs ⟨hlow, hhigh⟩ hv
    rw [isValid, hs] at hv
    simp only [SEQ_ERR_INVALID, SEQ_OK, SEQ_EMPTY] at hlow hhigh hv
    split_ifs at hv <;> (have hsum := of_decide_eq_true hv; omega)
  by_cases hpart : ∃ (m : Master) (c : Byte) (rest : List Byte), l = m.bytes ++ c :: rest
  swap
  · simp only [not_exists] at hpart
    obtain ⟨e, he, hcheck⟩ := checkMasterSequence_reject l hpart
    refine ⟨{ tel with master := {}, masterState := e }, ?_, fun hv => absurd hv (hfail _ hstate he)⟩
    have htext : first.frame ++ seqNak :: l = (first.frame ++ [seqNak]) ++ l := by simp
    have hoff : Sequence.size ⟨first.bytes ++ [first.crc], false⟩ + 1 =
        (first.frame ++ [seqNak]).length := by
      simp [Sequence.size, Master.frame]
    have hsize : ¬ Sequence.size ⟨(first.frame ++ [seqNak]) ++ l, false⟩ <
        (first.frame ++ [seqNak]).length := by
      simp only [Sequence.size, List.length_append]
      omega
    rw [htext, parseMasterAgain, hoff]
    simp only [if_neg hsize, Sequence.slice_append_zero, ok_bind, hcheck, ne_eq, he.2.ne,
      not_false_eq_true, if_true]
    rfl
  obtain ⟨m, c, rest, rfl⟩ := hpart
  rw [parseMasterAgain_frame]
  by_cases hcrc : m.crc = c
  swap
  · simp only [ne_eq, hcrc, not_false_eq_true, if_true, if_false]
    exact ⟨_, rfl, fun hv => absurd hv (hfail _ hstate (by simp only [withMaster]; decide))⟩
  subst hcrc
  have htext : m.bytes ++ m.crc :: rest = m.frame ++ rest := by simp [Master.frame]
  simp only [ne_eq, not_true_eq_false, if_false, if_true, htext]
  refine awaitAck_valid (held_withMaster m hslave hstate) rest _ _ _ (fun a r hr => ?_)
    (fun tel' => ∃ m' s, Exchange (m.frame ++ rest) m' s ∧ Decoded tel' m' s) (fun r _ => ?_)
    fun s tel' he hd => ⟨m, s, he, hd⟩
  · rw [hr, List.append_cons]
    exact drop_frame _ m a r _ (by simp)
  · refine ⟨_, rfl, fun hv => absurd hv (hfail _ hstate ?_)⟩
    simp only
    split_ifs <;> decide

theorem parseAck_accept {tel : Telegram} {m : Master} (htel : Held tel m) {rest : List Byte}
    {s : Option Slave} (h : Exchange (m.frame ++ rest) m s) :
    ∃ tel', tel.parseAck ⟨m.frame ++ rest, false⟩ ⟨m.bytes ++ [m.crc], false⟩ = .ok tel' ∧
      tel'.isValid = true ∧ Decoded tel' m s := by
  rw [parseAck_frame tel m rest htel.masterNN]
  refine awaitAck_accept htel h _ _ _ fun a r hr => ?_
  rw [hr]
  exact drop_frame [] m a r 0 rfl

theorem parseAck_valid {tel : Telegram} {m : Master} (htel : Held tel m) (rest : List Byte)
    (htype : m.type ≠ .BC) :
    ∃ tel', tel.parseAck ⟨m.frame ++ rest, false⟩ ⟨m.bytes ++ [m.crc], false⟩ = .ok tel' ∧
      (tel'.isValid = true → ∃ m' s, Accepted (m.frame ++ rest) m' s ∧ Decoded tel' m' s) := by
  rw [parseAck_frame tel m rest htel.masterNN]
  refine awaitAck_valid htel rest _ _ _ (fun a r hr => ?_)
    (fun tel' => ∃ m' s, Accepted (m.frame ++ rest) m' s ∧ Decoded tel' m' s) (fun r hr => ?_)
    fun s tel' he hd => ⟨m, s, .once he, hd⟩
  · rw [hr]
    exact drop_frame [] m a r 0 rfl
  · rw [hr]
    obtain ⟨tel', hrun, hv⟩ := parseMasterAgain_valid { tel with slaveACK := seqNak } m r
      (htel.decoded.noSlave rfl) htel.slaveState
    refine ⟨tel', hrun, fun hvalid => ?_⟩
    obtain ⟨m', s, he, hd⟩ := hv hvalid
    exact ⟨m', s, .again m htype he, hd⟩

theorem parseReduced_frame (tel : Telegram) (m : Master) (c : Byte) (rest : List Byte) :
    tel.parseReduced ⟨m.bytes ++ c :: rest, false⟩ =
      let tel := tel.withMaster m ⟨extendBytes m.bytes, true⟩ c
        (if m.crc = c then SEQ_OK else SEQ_ERR_CRC)
      if m.crc ≠ c then .ok tel
      else if m.type ≠ .BC then
        tel.parseAck ⟨m.bytes ++ c :: rest, false⟩ ⟨m.bytes ++ [m.crc], false⟩
      else .ok tel := by
  have h4 : Sequence.byteAt ⟨m.bytes ++ c :: rest, false⟩ 4 = .ok m.nn := rfl
  simp only [parseReduced, ok_bind, checkMasterSequence_frame, ne_eq, not_true_eq_false, if_false, h4,
    Master.nn_toNat, slice_master, createMaster_full, withMaster]
  by_cases hcrc : m.crc = c
  swap
  · simp only [hcrc, if_false, not_false_eq_true, if_true, show SEQ_ERR_CRC ≠ SEQ_OK by decide]
    rfl
  subst hcrc
  simp only [if_true, not_true_eq_false, if_false]
  by_cases htype : m.type = .BC
  · simp only [htype, not_true_eq_false, if_false]
    exact parseSlave_ne_MS _ _ _ (by simp)
  · simp only [htype, not_false_eq_true, if_true]

theorem parseReduced_accept (tel : Telegram) (hslave : tel.slave = {})
    (hstate : tel.slaveState = SEQ_EMPTY) {l : List Byte} {m : Master} {s : Option Slave}
    (h : Accepted l m s) :
    ∃ tel', tel.parseReduced ⟨l, false⟩ = .ok tel' ∧ tel'.isValid = true ∧ Decoded tel' m s := by
  have hframe : ∀ (m : Master) (rest : List Byte), m.frame ++ rest = m.bytes ++ m.crc :: rest := by
    simp [Master.frame]
  have hrun : ∀ (m : Master) (rest : List Byte), m.type ≠ .BC →
      tel.parseReduced ⟨m.frame ++ rest, false⟩ =
        (tel.withMaster m ⟨extendBytes m.bytes, true⟩ m.crc SEQ_OK).parseAck
          ⟨m.frame ++ rest, false⟩ ⟨m.bytes ++ [m.crc], false⟩ := by
    intro m rest htype
    rw [hframe, parseReduced_frame]
    simp only [ne_eq, not_true_eq_false, if_false, if_true, htype, not_false_eq_true]
  have hbroadcast : ∀ (m : Master) (rest : List Byte), m.type = .BC →
      ∃ tel', tel.parseReduced ⟨m.frame ++ rest, false⟩ = .ok tel' ∧ tel'.isValid = true ∧
        Decoded tel' m none := by
    intro m rest htype
    have hd := (held_withMaster m hslave hstate).decoded
    refine ⟨_, ?_, ?_, hd⟩
    · rw [hframe, parseReduced_frame]
      simp only [ne_eq, not_true_eq_false, if_false, if_true, htype]
    · rw [isValid_of_ne_MS (by rw [hd.type, htype]; decide), hd.masterState]
  cases h with
  | broadcast m rest htype => exact hbroadcast m rest htype
  | once he =>
    obtain ⟨rest, rfl⟩ := exchange_frame he
    by_cases htype : m.type = .BC
    · rcases (exchange_iff _ _ _).1 he with ⟨_, rfl, _⟩ | ⟨hms, _⟩
      · exact hbroadcast m rest htype
      · rw [hms] at htype
        cases htype
    · rw [hrun m rest htype]
      exact parseAck_accept (held_withMaster m hslave hstate) he
  | again first hfirst he =>
    have hheld := held_withMaster first hslave hstate
    rw [hrun first _ hfirst, parseAck_frame _ _ _ hheld.masterNN]
    simp only [awaitAck, ne_eq, not_true_eq_false, and_false, if_false, if_true]
    exact parseMasterAgain_accept _ first hslave hstate he

theorem parseReduced_valid (tel : Telegram) (hslave : tel.slave = {})
    (hstate : tel.slaveState = SEQ_EMPTY) (hundefined : tel.type = .undefined) (l : List Byte) :
    ∃ tel', tel.parseReduced ⟨l, false⟩ = .ok tel' ∧
      (tel'.isValid = true → ∃ m s, Accepted l m s ∧ Decoded tel' m s) := by
  by_cases hpart : ∃ (m : Master) (c : Byte) (rest : List Byte), l = m.bytes ++ c :: rest
  swap
  · simp only [not_exists] at hpart
    obtain ⟨e, he, hcheck⟩ := checkMasterSequence_reject l hpart
    refine ⟨{ tel with masterState := e }, ?_, fun hv => absurd ?_ he.2.ne⟩
    · simp only [parseReduced, hcheck, ok_bind, ne_eq, he.2.ne, not_false_eq_true, if_true]
      rfl
    · exact (isValid_of_ne_MS (by simp [hundefined])).1 hv
  obtain ⟨m, c, rest, rfl⟩ := hpart
  rw [parseReduced_frame]
  by_cases hcrc : m.crc = c
  swap
  · simp only [ne_eq, hcrc, not_false_eq_true, if_true, if_false]
    refine ⟨_, rfl, fun hv => ?_⟩
    simp only [isValid, withMaster, hstate] at hv
    split_ifs at hv <;> exact absurd hv (by decide)
  subst hcrc
  have htext : m.bytes ++ m.crc :: rest = m.frame ++ rest := by simp [Master.frame]
  have hheld := held_withMaster m hslave hstate
  simp only [ne_eq, not_true_eq_false, if_false, if_true, htext]
  by_cases htype : m.type = .BC
  · simp only [htype, not_true_eq_false, if_false]
    exact ⟨_, rfl, fun _ => ⟨m, none, .broadcast m rest htype, hheld.decoded⟩⟩
  · simp only [htype, not_false_eq_true, if_true]
    exact parseAck_valid hheld rest htype

/-- `parse` does not throw, it accepts exactly the texts of the grammar, and on these the telegram
holds the two parts. -/
theorem parse_spec (tel : Telegram) (seq : Sequence) :
    ∃ tel', tel.parse seq = .ok (tel', seq.reduce) ∧
      (tel'.isValid = true → ∃ m s, Accepted seq.reduce.seq m s ∧ Decoded tel' m s) ∧
      ∀ m s, Accepted seq.reduce.seq m s → tel'.isValid = true ∧ Decoded tel' m s := by
  obtain ⟨tel', hrun, hvalid⟩ := parseReduced_valid tel.clear rfl rfl rfl seq.reduce.seq
  refine ⟨tel', ?_, hvalid, fun m s h => ?_⟩
  · rw [parse, Sequence.reduce_eq, hrun]
    rfl
  · obtain ⟨tel'', hrun', hdone⟩ := parseReduced_accept tel.clear rfl rfl h
    cases hrun.symm.trans hrun'
    exact hdone

/-- **`parse` stays in range**: on every sequence, in either form and of any length, it returns, so no
access through `operator[]` or the slicing constructor threw; and the slicing constructor of the model is the
one of the source, whose subtraction `size - index` may wrap around, for every size and index that a `size_t`
holds. -/
theorem parse_in_range :
    (∀ (tel : Telegram) (seq : Sequence), ∃ tel', tel.parse seq = .ok (tel', seq.reduce)) ∧
      ∀ (w index len : Nat) (s : Sequence), s.size < 2 ^ w → index + len < 2 ^ w →
        s.sliceMod w index len = s.slice index len := by
  refine ⟨fun tel seq => ?_, fun w index len s hsize hindex => Sequence.sliceMod_eq hsize hindex⟩
  obtain ⟨tel', hrun, -⟩ := tel.parse_spec seq
  exact ⟨tel', hrun⟩

end Telegram

end EBusFsm
