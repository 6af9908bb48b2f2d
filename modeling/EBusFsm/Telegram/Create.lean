import EBusFsm.Telegram.Parts

/-!
# Which bytes a part is created from

`createMaster` and `createSlave` are meant to accept the bytes of a part, alone or followed by their CRC.
`create_exact_iff` says on which inputs they do: the first check asks for the bytes of an empty part and
one byte more, so an empty part without its CRC is refused as too short, and nothing else goes wrong.
-/

namespace EBusFsm

/-! ### The property -/

/-- A call of `createMaster` on the reduced bytes `l` accepts them exactly if they are a master part, with or
without its CRC. -/
def MasterExact (l : List Byte) (result : Except OutOfRange (Telegram × Sequence)) : Prop :=
  (∃ tel seq, result = .ok (tel, seq) ∧ tel.masterState = SEQ_OK) ↔
    ∃ m : Master, l = m.bytes ∨ l = m.frame

/-- A call of `createSlave` on the reduced bytes `l` accepts them exactly if they are a slave part, with or
without its CRC. -/
def SlaveExact (l : List Byte) (result : Except OutOfRange (Telegram × Sequence)) : Prop :=
  (∃ tel seq, result = .ok (tel, seq) ∧ tel.slaveState = SEQ_OK) ↔
    ∃ s : Slave, l = s.bytes ∨ l = s.frame

/-- A master part without data and without its CRC. -/
def MasterEmpty (l : List Byte) : Prop := ∃ m : Master, m.data = [] ∧ l = m.bytes

/-- A slave part without data and without its CRC. -/
def SlaveEmpty (l : List Byte) : Prop := ∃ s : Slave, s.data = [] ∧ l = s.bytes

/-! ### Texts of a part -/

theorem exists_masterText_iff (l : List Byte) :
    (∃ (m : Master) (stored : Sequence), m.Text l stored) ↔
      (∃ m : Master, l = m.bytes ∨ l = m.frame) ∧ ¬ MasterEmpty l := by
  constructor
  · rintro ⟨m, stored, ht⟩
    cases ht with
    | bare hm =>
      refine ⟨⟨m, .inl rfl⟩, ?_⟩
      rintro ⟨m', hm', heq⟩
      obtain rfl := Master.bytes_injective heq
      exact hm hm'
    | full =>
      refine ⟨⟨m, .inr rfl⟩, ?_⟩
      rintro ⟨m', -, heq⟩
      exact nomatch (Master.bytes_append_inj (heq.trans (List.append_nil _).symm)).2
  · rintro ⟨⟨m, rfl | rfl⟩, hempty⟩
    · exact ⟨m, _, .bare fun hm => hempty ⟨m, hm, rfl⟩⟩
    · exact ⟨m, _, .full⟩

theorem exists_slaveText_iff (l : List Byte) :
    (∃ (s : Slave) (stored : Sequence), s.Text l stored) ↔
      (∃ s : Slave, l = s.bytes ∨ l = s.frame) ∧ ¬ SlaveEmpty l := by
  constructor
  · rintro ⟨s, stored, ht⟩
    cases ht with
    | bare hs =>
      refine ⟨⟨s, .inl rfl⟩, ?_⟩
      rintro ⟨s', hs', heq⟩
      obtain rfl := Slave.bytes_injective heq
      exact hs hs'
    | full =>
      refine ⟨⟨s, .inr rfl⟩, ?_⟩
      rintro ⟨s', -, heq⟩
      exact nomatch (Slave.bytes_append_inj (heq.trans (List.append_nil _).symm)).2
  · rintro ⟨⟨s, rfl | rfl⟩, hempty⟩
    · exact ⟨s, _, .bare fun hs => hempty ⟨s, hs, rfl⟩⟩
    · exact ⟨s, _, .full⟩

/-! ### Accepted calls -/

theorem createMaster_accepts_iff (tel₀ : Telegram) (seq : Sequence) :
    (∃ tel seq', tel₀.createMaster seq = .ok (tel, seq') ∧ tel.masterState = SEQ_OK) ↔
      ∃ (m : Master) (stored : Sequence), m.Text seq.reduce.seq stored := by
  constructor
  · rintro ⟨tel, seq', hrun, hstate⟩
    obtain ⟨m, stored, ht, -⟩ := Telegram.createMaster_ok hrun hstate
    exact ⟨m, stored, ht⟩
  · rintro ⟨m, stored, ht⟩
    obtain ⟨seq', hrun, -⟩ := tel₀.createMaster_text ht
    rw [Telegram.createMaster_reduce]
    exact ⟨_, seq', hrun, rfl⟩

theorem createSlave_accepts_iff (tel₀ : Telegram) (seq : Sequence) :
    (∃ tel seq', tel₀.createSlave seq = .ok (tel, seq') ∧ tel.slaveState = SEQ_OK) ↔
      ∃ (s : Slave) (stored : Sequence), s.Text seq.reduce.seq stored := by
  constructor
  · rintro ⟨tel, seq', hrun, hstate⟩
    obtain ⟨s, stored, ht, -⟩ := Telegram.createSlave_ok hrun hstate
    exact ⟨s, stored, ht⟩
  · rintro ⟨s, stored, ht⟩
    obtain ⟨seq', hrun⟩ := tel₀.createSlave_text ht
    rw [Telegram.createSlave_reduce]
    exact ⟨_, seq', hrun, rfl⟩

theorem masterExact_iff (tel : Telegram) (seq : Sequence) :
    MasterExact seq.reduce.seq (tel.createMaster seq) ↔ ¬ MasterEmpty seq.reduce.seq := by
  rw [MasterExact, createMaster_accepts_iff, exists_masterText_iff]
  refine ⟨fun h hempty => ?_, fun hempty => and_iff_left hempty⟩
  obtain ⟨m, -, hl⟩ := id hempty
  exact (h.2 ⟨m, .inl hl⟩).2 hempty

theorem slaveExact_iff (tel : Telegram) (seq : Sequence) :
    SlaveExact seq.reduce.seq (tel.createSlave seq) ↔ ¬ SlaveEmpty seq.reduce.seq := by
  rw [SlaveExact, createSlave_accepts_iff, exists_slaveText_iff]
  refine ⟨fun h hempty => ?_, fun hempty => and_iff_left hempty⟩
  obtain ⟨s, -, hl⟩ := id hempty
  exact (h.2 ⟨s, .inl hl⟩).2 hempty

/-- **A part is created from its bytes, with or without its CRC, exactly if it has data or a CRC**: on every
other input the calls accept what is a part and refuse what is none, whether the bytes come as a vector or as
a sequence in either form. -/
theorem create_exact_iff (tel : Telegram) :
    (∀ seq : Sequence,
      (MasterExact seq.reduce.seq (tel.createMaster seq) ↔ ¬ MasterEmpty seq.reduce.seq) ∧
      (SlaveExact seq.reduce.seq (tel.createSlave seq) ↔ ¬ SlaveEmpty seq.reduce.seq)) ∧
    ∀ (src : Byte) (vec : List Byte),
      (MasterExact (src :: vec) (tel.createMasterFrom src vec) ↔ ¬ MasterEmpty (src :: vec)) ∧
      (SlaveExact vec (tel.createSlaveFrom vec) ↔ ¬ SlaveEmpty vec) := by
  refine ⟨fun seq => ⟨masterExact_iff tel seq, slaveExact_iff tel seq⟩, fun src vec => ?_⟩
  rw [createMasterFrom_eq, createSlaveFrom_eq]
  exact ⟨masterExact_iff tel ⟨src :: vec, false⟩, slaveExact_iff tel ⟨vec, false⟩⟩

/-- `ff08b50500` is a master part, and `00` a slave part; both are refused as too short. -/
theorem create_empty_sample :
    ¬ MasterExact [0xff, 0x08, 0xb5, 0x05, 0x00]
        (({} : Telegram).createMasterFrom 0xff [0x08, 0xb5, 0x05, 0x00]) ∧
      ¬ SlaveExact [0x00] (({} : Telegram).createSlaveFrom [0x00]) := by
  let m : Master := ⟨0xff, 0x08, 0xb5, 0x05, [], by decide, by decide, by decide⟩
  let s : Slave := ⟨[], by decide⟩
  have hmaster : ({} : Telegram).createMasterFrom 0xff [0x08, 0xb5, 0x05, 0x00] =
      .ok ({ ({} : Telegram) with masterState := SEQ_ERR_SHORT },
        ⟨[0xff, 0x08, 0xb5, 0x05, 0x00], false⟩) := by decide
  have hslave : ({} : Telegram).createSlaveFrom [0x00] =
      .ok ({ ({} : Telegram) with slaveState := SEQ_ERR_SHORT }, ⟨[0x00], false⟩) := by decide
  refine ⟨fun h => ?_, fun h => ?_⟩
  · obtain ⟨tel, seq, hrun, hstate⟩ := h.2 ⟨m, .inl (by decide)⟩
    rw [hmaster] at hrun
    cases hrun
    exact absurd hstate (by decide)
  · obtain ⟨tel, seq, hrun, hstate⟩ := h.2 ⟨s, .inl (by decide)⟩
    rw [hslave] at hrun
    cases hrun
    exact absurd hstate (by decide)

end EBusFsm
