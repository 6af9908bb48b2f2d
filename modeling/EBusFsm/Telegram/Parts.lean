import EBusFsm.Telegram
import Mathlib.Tactic

/-!
# Telegram parts

`Master` and `Slave` are the two parts of a telegram as values: addresses that are allowed, at most
sixteen data bytes, and a size byte that is the number of data bytes because it is computed from
them. `frame` is a part followed by its CRC. The three lemmas about each of `createMaster` and
`createSlave` say completely what the call does with a reduced sequence: a part that stands alone, a
part followed by one byte, and anything else.
-/

namespace EBusFsm

theorem forall_byte {p : Byte → Prop} (h : ∀ n : Fin 256, p (UInt8.ofNat n.val)) (b : Byte) : p b := by
  have hb := h ⟨b.toNat, UInt8.toNat_lt b⟩
  simpa using hb

/-- The CRC of reduced bytes: the table loop over their extended form. -/
def crcOf (bytes : List Byte) : Byte := crcLoop (extendBytes bytes)

/-- The master part of a telegram. -/
structure Master where
  qq : Byte
  zz : Byte
  pb : Byte
  sb : Byte
  data : List Byte
  source : isMaster qq = true
  target : isAddressValid zz = true
  bound : data.length ≤ seqMaxBytes

/-- The slave part of a telegram. -/
structure Slave where
  data : List Byte
  bound : data.length ≤ seqMaxBytes

namespace Master

variable (m : Master)

def nn : Byte := UInt8.ofNat m.data.length

def bytes : List Byte := m.qq :: m.zz :: m.pb :: m.sb :: m.nn :: m.data

def type : TelegramType := typeOf m.zz

def crc : Byte := crcOf m.bytes

/-- The part followed by its CRC. -/
def frame : List Byte := m.bytes ++ [m.crc]

@[simp] theorem nn_toNat : m.nn.toNat = m.data.length := by
  have h := m.bound
  rw [seqMaxBytes] at h
  simp only [nn, UInt8.toNat_ofNat']
  omega

@[simp] theorem bytes_length : m.bytes.length = 5 + m.data.length := by
  simp only [bytes, List.length_cons]
  omega

@[simp] theorem frame_length : m.frame.length = 6 + m.data.length := by
  simp only [frame, List.length_append, bytes_length, List.length_singleton]
  omega

theorem type_ne_undefined : m.type ≠ .undefined := by
  rw [type, typeOf]
  split_ifs <;> decide

/-- A part goes to all, to a master or to a slave. -/
theorem type_cases : m.type = .BC ∨ m.type = .MM ∨ m.type = .MS := by
  rw [type, typeOf]
  split_ifs <;> simp

theorem bytes_injective : Function.Injective bytes := by
  rintro ⟨q, z, p, s, d, _, _, _⟩ ⟨q', z', p', s', d', _, _, _⟩ h
  simp only [bytes, List.cons.injEq] at h
  obtain ⟨rfl, rfl, rfl, rfl, _, rfl⟩ := h
  rfl

/-- The size byte delimits the part, so a text starts with at most one master part. -/
theorem bytes_append_inj {m m' : Master} {r r' : List Byte} (h : m.bytes ++ r = m'.bytes ++ r') :
    m = m' ∧ r = r' := by
  have hnn : m.nn = m'.nn := by
    simp only [bytes, List.cons_append, List.cons.injEq] at h
    exact h.2.2.2.2.1
  have hlen : m.data.length = m'.data.length := by
    rw [← nn_toNat, hnn, nn_toNat]
  have hb := List.append_inj h (by simp [hlen])
  exact ⟨bytes_injective hb.1, hb.2⟩

theorem frame_append_inj {m m' : Master} {r r' : List Byte} (h : m.frame ++ r = m'.frame ++ r') :
    m = m' ∧ r = r' := by
  simp only [frame, List.append_assoc] at h
  obtain ⟨rfl, hr⟩ := bytes_append_inj h
  exact ⟨rfl, by simpa using hr⟩

end Master

namespace Slave

variable (s : Slave)

def nn : Byte := UInt8.ofNat s.data.length

def bytes : List Byte := s.nn :: s.data

def crc : Byte := crcOf s.bytes

/-- The part followed by its CRC. -/
def frame : List Byte := s.bytes ++ [s.crc]

@[simp] theorem nn_toNat : s.nn.toNat = s.data.length := by
  have h := s.bound
  rw [seqMaxBytes] at h
  simp only [nn, UInt8.toNat_ofNat']
  omega

@[simp] theorem bytes_length : s.bytes.length = 1 + s.data.length := by
  simp only [bytes, List.length_cons]
  omega

@[simp] theorem frame_length : s.frame.length = 2 + s.data.length := by
  simp only [frame, List.length_append, bytes_length, List.length_singleton]
  omega

theorem bytes_injective : Function.Injective bytes := by
  rintro ⟨d, _⟩ ⟨d', _⟩ h
  simp only [bytes, List.cons.injEq] at h
  obtain ⟨_, rfl⟩ := h
  rfl

theorem bytes_append_inj {s s' : Slave} {r r' : List Byte} (h : s.bytes ++ r = s'.bytes ++ r') :
    s = s' ∧ r = r' := by
  have hnn : s.nn = s'.nn := by
    simp only [bytes, List.cons_append, List.cons.injEq] at h
    exact h.1
  have hlen : s.data.length = s'.data.length := by
    rw [← nn_toNat, hnn, nn_toNat]
  have hb := List.append_inj h (by simp [hlen])
  exact ⟨bytes_injective hb.1, hb.2⟩

theorem frame_append_inj {s s' : Slave} {r r' : List Byte} (h : s.frame ++ r = s'.frame ++ r') :
    s = s' ∧ r = r' := by
  simp only [frame, List.append_assoc] at h
  obtain ⟨rfl, hr⟩ := bytes_append_inj h
  exact ⟨rfl, by simpa using hr⟩

end Slave

/-- The reduced text from which `createMaster` accepts the part, and the form in which it is stored:
the part alone, or the part with its CRC. -/
inductive Master.Text (m : Master) : List Byte → Sequence → Prop
  | bare (hm : m.data ≠ []) : Master.Text m m.bytes ⟨m.bytes, false⟩
  | full : Master.Text m m.frame ⟨extendBytes m.bytes, true⟩

/-- The reduced text from which `createSlave` accepts the part, and the form in which it is stored. -/
inductive Slave.Text (s : Slave) : List Byte → Sequence → Prop
  | bare (hs : s.data ≠ []) : Slave.Text s s.bytes ⟨s.bytes, false⟩
  | full : Slave.Text s s.frame ⟨extendBytes s.bytes, true⟩

theorem Master.Text.reduce {m : Master} {l : List Byte} {stored : Sequence} (h : m.Text l stored) :
    stored.reduce.seq = m.bytes := by
  cases h with
  | bare hm => rfl
  | full => exact reduceBytes_extendBytes _

theorem Slave.Text.reduce {s : Slave} {l : List Byte} {stored : Sequence} (h : s.Text l stored) :
    stored.reduce.seq = s.bytes := by
  cases h with
  | bare hs => rfl
  | full => exact reduceBytes_extendBytes _

theorem Master.Text.unique {m m' : Master} {l : List Byte} {stored stored' : Sequence}
    (h : m.Text l stored) (h' : m'.Text l stored') : m = m' ∧ stored = stored' := by
  cases h with
  | bare hm =>
    generalize he : m.bytes = l at h'
    cases h' with
    | bare hm' => exact ⟨Master.bytes_injective he, rfl⟩
    | full => exact nomatch (Master.bytes_append_inj ((List.append_nil _).trans he)).2
  | full =>
    generalize he : m.frame = l at h'
    cases h' with
    | bare hm' => exact nomatch (Master.bytes_append_inj (he.trans (List.append_nil _).symm)).2
    | full =>
      obtain ⟨rfl, -⟩ := Master.bytes_append_inj he
      exact ⟨rfl, rfl⟩

theorem Slave.Text.unique {s s' : Slave} {l : List Byte} {stored stored' : Sequence}
    (h : s.Text l stored) (h' : s'.Text l stored') : s = s' ∧ stored = stored' := by
  cases h with
  | bare hs =>
    generalize he : s.bytes = l at h'
    cases h' with
    | bare hs' => exact ⟨Slave.bytes_injective he, rfl⟩
    | full => exact nomatch (Slave.bytes_append_inj ((List.append_nil _).trans he)).2
  | full =>
    generalize he : s.frame = l at h'
    cases h' with
    | bare hs' => exact nomatch (Slave.bytes_append_inj (he.trans (List.append_nil _).symm)).2
    | full =>
      obtain ⟨rfl, -⟩ := Slave.bytes_append_inj he
      exact ⟨rfl, rfl⟩

/-- A part that came with its CRC is stored in the extended form. -/
theorem Master.Text.eq_of_frame {m m' : Master} {l : List Byte} {stored : Sequence}
    (ht : m'.Text l stored) (hl : l = m.frame) : m' = m ∧ stored = ⟨extendBytes m.bytes, true⟩ := by
  rw [hl] at ht
  obtain ⟨rfl, rfl⟩ := ht.unique .full
  exact ⟨rfl, rfl⟩

theorem Slave.Text.eq_of_frame {s s' : Slave} {l : List Byte} {stored : Sequence}
    (ht : s'.Text l stored) (hl : l = s.frame) : s' = s ∧ stored = ⟨extendBytes s.bytes, true⟩ := by
  rw [hl] at ht
  obtain ⟨rfl, rfl⟩ := ht.unique .full
  exact ⟨rfl, rfl⟩

theorem not_reserved_of_isAddressValid {b : Byte} (h : isAddressValid b = true) :
    ¬ ebusCode.Reserved b := by
  simp only [isAddressValid, Bool.and_eq_true, bne_iff_ne, ne_eq] at h
  exact not_or.2 h

theorem not_reserved_of_isMaster {b : Byte} (h : isMaster b = true) : ¬ ebusCode.Reserved b := by
  rintro (rfl | rfl) <;> exact absurd h (by decide)

/-- Both addresses of a master part stand for themselves on the wire. -/
theorem Master.extendBytes_bytes (m : Master) :
    extendBytes m.bytes = m.qq :: m.zz :: extendBytes (m.pb :: m.sb :: m.nn :: m.data) := by
  rw [extendBytes_eq_stuff, Master.bytes,
    ebusCode.stuff_cons_of_not_reserved (not_reserved_of_isMaster m.source),
    ebusCode.stuff_cons_of_not_reserved (not_reserved_of_isAddressValid m.target),
    extendBytes_eq_stuff]

/-- The stored form starts with the source address. -/
theorem Master.Text.stored_eq {m : Master} {l : List Byte} {stored : Sequence}
    (h : m.Text l stored) : ∃ rest, stored.seq = m.qq :: m.zz :: rest := by
  cases h with
  | bare hm => exact ⟨_, rfl⟩
  | full => exact ⟨_, m.extendBytes_bytes⟩

theorem Master.Text.qq_eq {m : Master} {b : Byte} {l : List Byte} {stored : Sequence}
    (h : m.Text (b :: l) stored) : m.qq = b := by
  generalize heq : b :: l = text at h
  cases h with
  | bare => exact (List.head_eq_of_cons_eq heq).symm
  | full => exact (List.head_eq_of_cons_eq heq).symm

theorem Master.Text.byteAt_one {m : Master} {l : List Byte} {stored : Sequence}
    (h : m.Text l stored) : Sequence.byteAt ⟨l, false⟩ 1 = .ok m.zz := by
  cases h with
  | bare hm => rfl
  | full => rfl

/-! ### Recognizing a part -/

/-- A text that passes the checks common to `createMaster` and `checkMasterSequence` starts with a
master part. -/
theorem exists_master {q z p s n : Byte} {d : List Byte} (hq : isMaster q = true)
    (hz : isAddressValid z = true) (hn : n.toNat ≤ seqMaxBytes) (hd : n.toNat ≤ d.length) :
    ∃ (m : Master) (rest : List Byte), m.data.length = n.toNat ∧ rest.length = d.length - n.toNat ∧
      q :: z :: p :: s :: n :: d = m.bytes ++ rest := by
  have hlen : (d.take n.toNat).length = n.toNat := by simp [hd]
  let m : Master := ⟨q, z, p, s, d.take n.toNat, hq, hz, by rw [hlen]; exact hn⟩
  have hnn : m.nn = n := by
    apply UInt8.toNat_inj.1
    rw [Master.nn_toNat]
    exact hlen
  refine ⟨m, d.drop n.toNat, hlen, by simp, ?_⟩
  rw [Master.bytes, hnn]
  simp [m]

theorem exists_slave {n : Byte} {d : List Byte} (hn : n.toNat ≤ seqMaxBytes)
    (hd : n.toNat ≤ d.length) :
    ∃ (s : Slave) (rest : List Byte), s.data.length = n.toNat ∧ rest.length = d.length - n.toNat ∧
      n :: d = s.bytes ++ rest := by
  have hlen : (d.take n.toNat).length = n.toNat := by simp [hd]
  let s : Slave := ⟨d.take n.toNat, by rw [hlen]; exact hn⟩
  have hnn : s.nn = n := by
    apply UInt8.toNat_inj.1
    rw [Slave.nn_toNat]
    exact hlen
  refine ⟨s, d.drop n.toNat, hlen, by simp, ?_⟩
  rw [Slave.bytes, hnn]
  simp [s]

/-! ### What `createMaster` does -/

namespace Telegram

/-- The telegram after a master part `m` was accepted and stored in the form `stored`. -/
def withMaster (tel : Telegram) (m : Master) (stored : Sequence) (crc : Byte) (state : Int) :
    Telegram :=
  { tel with
    type := m.type, master := stored, masterNN := m.data.length, masterCRC := crc,
    masterState := state }

def withSlave (tel : Telegram) (s : Slave) (stored : Sequence) (crc : Byte) (state : Int) :
    Telegram :=
  { tel with slave := stored, slaveNN := s.data.length, slaveCRC := crc, slaveState := state }

theorem createMaster_reduce (tel : Telegram) (seq : Sequence) :
    tel.createMaster seq = tel.createMaster ⟨seq.reduce.seq, false⟩ := by
  rcases seq with ⟨l, _ | _⟩ <;> rfl

theorem createSlave_reduce (tel : Telegram) (seq : Sequence) :
    tel.createSlave seq = tel.createSlave ⟨seq.reduce.seq, false⟩ := by
  rcases seq with ⟨l, _ | _⟩ <;> rfl

/-- A master part alone is stored as it is, and its CRC is computed. -/
theorem createMaster_bare (tel : Telegram) (m : Master) (hm : m.data ≠ []) :
    tel.createMaster ⟨m.bytes, false⟩ =
      .ok (tel.withMaster m ⟨m.bytes, false⟩ m.crc SEQ_OK, ⟨extendBytes m.bytes, true⟩) := by
  have hpos : 0 < m.data.length := List.length_pos_iff.2 hm
  have hb := m.bound
  have hsize : Sequence.size ⟨m.bytes, false⟩ = 5 + m.data.length := m.bytes_length
  have h0 : Sequence.byteAt ⟨m.bytes, false⟩ 0 = .ok m.qq := rfl
  have h1 : Sequence.byteAt ⟨m.bytes, false⟩ 1 = .ok m.zz := rfl
  have h4 : Sequence.byteAt ⟨m.bytes, false⟩ 4 = .ok m.nn := rfl
  simp only [createMaster, Sequence.reduce_reduced, hsize, h0, h1, h4, m.source, m.target, ok_bind,
    m.nn_toNat]
  rw [if_neg (by omega), if_neg (by simp), if_neg (by simp), if_neg (by omega), if_neg (by omega),
    if_neg (by omega)]
  rfl

/-- A master part with one more byte is stored extended, and the byte is compared with its CRC. -/
theorem createMaster_full (tel : Telegram) (m : Master) (c : Byte) :
    tel.createMaster ⟨m.bytes ++ [c], false⟩ =
      .ok (tel.withMaster m ⟨extendBytes m.bytes, true⟩ c (if m.crc = c then SEQ_OK else SEQ_ERR_CRC),
        ⟨m.bytes ++ [c], false⟩) := by
  have hb := m.bound
  have hsize : Sequence.size ⟨m.bytes ++ [c], false⟩ = 6 + m.data.length := by
    simp only [Sequence.size, List.length_append, m.bytes_length, List.length_singleton]
    omega
  have h0 : Sequence.byteAt ⟨m.bytes ++ [c], false⟩ 0 = .ok m.qq := rfl
  have h1 : Sequence.byteAt ⟨m.bytes ++ [c], false⟩ 1 = .ok m.zz := rfl
  have h4 : Sequence.byteAt ⟨m.bytes ++ [c], false⟩ 4 = .ok m.nn := rfl
  have hc : Sequence.byteAt ⟨m.bytes ++ [c], false⟩ (5 + m.data.length) = .ok c :=
    Sequence.byteAt_append_cons _ _ _ _ _ m.bytes_length.symm
  have hs : Sequence.slice ⟨m.bytes ++ [c], false⟩ 0 (5 + m.data.length) =
      .ok ⟨m.bytes, false⟩ := by
    rw [Sequence.slice_eq _ _ _ (by omega) (by rw [hsize]; omega), List.drop_zero,
      ← m.bytes_length, List.take_left]
  simp only [createMaster, Sequence.reduce_reduced, hsize, h0, h1, h4, m.source, m.target, ok_bind,
    m.nn_toNat, hs, hc, Sequence.crc_eq, Sequence.extend_reduced]
  rw [if_neg (by omega), if_neg (by simp), if_neg (by simp), if_neg (by omega), if_neg (by omega),
    if_neg (by omega), if_neg (by omega)]
  by_cases h : m.crc = c
  · have hloop : crcLoop (extendBytes m.bytes) = c := h
    simp only [hloop, h, ne_eq, not_true_eq_false, if_false, if_true]
    rfl
  · have hloop : crcLoop (extendBytes m.bytes) ≠ c := h
    simp only [hloop, h, ne_eq, not_false_eq_true, if_true, if_false]
    rfl

/-- Anything else only sets the error state. -/
theorem createMaster_reject (tel : Telegram) (l : List Byte)
    (hbare : ∀ m : Master, l = m.bytes → m.data = [])
    (hfull : ∀ (m : Master) (c : Byte), l ≠ m.bytes ++ [c]) :
    ∃ e, e ≠ SEQ_OK ∧ tel.createMaster ⟨l, false⟩ =
      .ok ({ tel with masterState := e }, ⟨l, false⟩) := by
  by_cases hsize : l.length < 6
  · exact ⟨SEQ_ERR_SHORT, by decide, by simp [createMaster, Sequence.size, hsize]; rfl⟩
  obtain ⟨q, z, p, s, n, d, rfl⟩ : ∃ q z p s n d, l = q :: z :: p :: s :: n :: d := by
    rcases l with _ | ⟨q, _ | ⟨z, _ | ⟨p, _ | ⟨s, _ | ⟨n, d⟩⟩⟩⟩⟩ <;> simp at hsize
    exact ⟨q, z, p, s, n, d, rfl⟩
  have hlen : Sequence.size ⟨q :: z :: p :: s :: n :: d, false⟩ = 5 + d.length := by
    simp only [Sequence.size, List.length_cons]
    omega
  have h0 : Sequence.byteAt ⟨q :: z :: p :: s :: n :: d, false⟩ 0 = .ok q := rfl
  have h1 : Sequence.byteAt ⟨q :: z :: p :: s :: n :: d, false⟩ 1 = .ok z := rfl
  have h4 : Sequence.byteAt ⟨q :: z :: p :: s :: n :: d, false⟩ 4 = .ok n := rfl
  simp only [List.length_cons] at hsize
  simp only [createMaster, Sequence.reduce_reduced, hlen, h0, h1, h4, ok_bind]
  rw [if_neg (by omega)]
  by_cases hq : isMaster q
  swap
  · exact ⟨SEQ_ERR_QQ, by decide, by simp [hq]; rfl⟩
  by_cases hz : isAddressValid z
  swap
  · exact ⟨SEQ_ERR_ZZ, by decide, by simp [hq, hz]; rfl⟩
  by_cases hn : n.toNat > seqMaxBytes
  · exact ⟨SEQ_ERR_NN, by decide, by simp [hq, hz, hn]; rfl⟩
  by_cases hshort : 5 + d.length < 5 + n.toNat
  · exact ⟨SEQ_ERR_SHORT, by decide, by simp [hq, hz, hn, hshort]; rfl⟩
  by_cases hlong : 5 + d.length > 5 + n.toNat + 1
  · exact ⟨SEQ_ERR_LONG, by decide, by simp [hq, hz, hn, hshort, hlong]; rfl⟩
  -- what is left is a part with at most one byte behind it
  obtain ⟨m, rest, hm, hrest, he⟩ := exists_master (p := p) (s := s) hq hz (by omega)
    (by omega : n.toNat ≤ d.length)
  rcases rest with _ | ⟨c, _ | ⟨c', rest⟩⟩
  · have hd := hbare m (by simpa using he)
    rw [hd] at hm
    simp only [List.length_nil] at hm hrest
    omega
  · exact absurd he (hfull m c)
  · simp only [List.length_cons] at hrest
    omega

/-- What `createMaster` does with a reduced sequence. -/
theorem createMaster_spec (tel : Telegram) (l : List Byte) :
    (∃ (m : Master) (stored seq : Sequence), m.Text l stored ∧
      tel.createMaster ⟨l, false⟩ = .ok (tel.withMaster m stored m.crc SEQ_OK, seq) ∧
        seq.reduce.seq = l ∧ seq.byteAt 1 = .ok m.zz) ∨
    (∃ (type : TelegramType) (master : Sequence) (nn : Nat) (crc : Byte) (e : Int), e ≠ SEQ_OK ∧
      (∀ (m : Master) (stored : Sequence), ¬ m.Text l stored) ∧
      tel.createMaster ⟨l, false⟩ = .ok ({ tel with
        type := type, master := master, masterNN := nn, masterCRC := crc, masterState := e },
        ⟨l, false⟩)) := by
  by_cases hbare : ∃ m : Master, l = m.bytes ∧ m.data ≠ []
  · obtain ⟨m, rfl, hm⟩ := hbare
    refine .inl ⟨m, _, _, .bare hm, createMaster_bare tel m hm, reduceBytes_extendBytes _, ?_⟩
    rw [m.extendBytes_bytes]
    rfl
  by_cases hfull : ∃ (m : Master) (c : Byte), l = m.bytes ++ [c]
  · obtain ⟨m, c, rfl⟩ := hfull
    have hrun := createMaster_full tel m c
    by_cases hc : m.crc = c
    · subst hc
      rw [if_pos rfl] at hrun
      exact .inl ⟨m, _, _, .full, hrun, rfl, rfl⟩
    · rw [if_neg hc] at hrun
      refine .inr ⟨_, _, _, _, SEQ_ERR_CRC, by decide, fun m' stored h => ?_, hrun⟩
      generalize he : m.bytes ++ [c] = l at h
      cases h with
      | bare hm' => exact hbare ⟨m', he, hm'⟩
      | full =>
        obtain ⟨rfl, hr⟩ := Master.bytes_append_inj he
        exact hc (by simpa using hr.symm)
  · have hb : ∀ m : Master, l = m.bytes → m.data = [] := fun m h =>
      by_contra fun hm => hbare ⟨m, h, hm⟩
    have hf : ∀ (m : Master) (c : Byte), l ≠ m.bytes ++ [c] := fun m c h => hfull ⟨m, c, h⟩
    obtain ⟨e, he, hrun⟩ := tel.createMaster_reject l hb hf
    refine .inr ⟨tel.type, tel.master, tel.masterNN, tel.masterCRC, e, he, fun m stored h => ?_, hrun⟩
    cases h with
    | bare hm => exact hm (hb m rfl)
    | full => exact hf m m.crc rfl

/-- What `createMaster` does with a text of a part. -/
theorem createMaster_text (tel : Telegram) {m : Master} {l : List Byte} {stored : Sequence}
    (ht : m.Text l stored) :
    ∃ seq, tel.createMaster ⟨l, false⟩ = .ok (tel.withMaster m stored m.crc SEQ_OK, seq) ∧
      seq.reduce.seq = l ∧ seq.byteAt 1 = .ok m.zz := by
  rcases createMaster_spec tel l with ⟨m', stored', seq, ht', hrun⟩ | ⟨_, _, _, _, _, -, hno, -⟩
  · obtain ⟨rfl, rfl⟩ := ht.unique ht'
    exact ⟨seq, hrun⟩
  · exact absurd ht (hno m stored)

/-- An accepted call of `createMaster`. -/
theorem createMaster_ok {tel₀ tel : Telegram} {seq seq' : Sequence}
    (hrun : tel₀.createMaster seq = .ok (tel, seq')) (hstate : tel.masterState = SEQ_OK) :
    ∃ (m : Master) (stored : Sequence), m.Text seq.reduce.seq stored ∧
      tel = tel₀.withMaster m stored m.crc SEQ_OK := by
  rw [createMaster_reduce] at hrun
  rcases createMaster_spec tel₀ seq.reduce.seq with
    ⟨m, stored, s, ht, h, -⟩ | ⟨_, _, _, _, e, he, -, h⟩
  · rw [h] at hrun
    cases hrun
    exact ⟨m, stored, ht, rfl⟩
  · rw [h] at hrun
    cases hrun
    exact absurd hstate he

/-! ### What `createSlave` does -/

/-- A slave part alone is stored as it is, and its CRC is computed. -/
theorem createSlave_bare (tel : Telegram) (s : Slave) (hs : s.data ≠ []) :
    tel.createSlave ⟨s.bytes, false⟩ =
      .ok (tel.withSlave s ⟨s.bytes, false⟩ s.crc SEQ_OK, ⟨extendBytes s.bytes, true⟩) := by
  have hpos : 0 < s.data.length := List.length_pos_iff.2 hs
  have hb := s.bound
  have hsize : Sequence.size ⟨s.bytes, false⟩ = 1 + s.data.length := s.bytes_length
  have h0 : Sequence.byteAt ⟨s.bytes, false⟩ 0 = .ok s.nn := rfl
  simp only [createSlave, Sequence.reduce_reduced, hsize, h0, ok_bind, s.nn_toNat]
  rw [if_neg (by omega), if_neg (by omega), if_neg (by omega), if_neg (by omega)]
  rfl

/-- A slave part with one more byte is stored extended, and the byte is compared with its CRC. -/
theorem createSlave_full (tel : Telegram) (s : Slave) (c : Byte) :
    tel.createSlave ⟨s.bytes ++ [c], false⟩ =
      .ok (tel.withSlave s ⟨extendBytes s.bytes, true⟩ c (if s.crc = c then SEQ_OK else SEQ_ERR_CRC),
        ⟨s.bytes ++ [c], false⟩) := by
  have hb := s.bound
  have hsize : Sequence.size ⟨s.bytes ++ [c], false⟩ = 2 + s.data.length := by
    simp only [Sequence.size, List.length_append, s.bytes_length, List.length_singleton]
    omega
  have h0 : Sequence.byteAt ⟨s.bytes ++ [c], false⟩ 0 = .ok s.nn := rfl
  have hc : Sequence.byteAt ⟨s.bytes ++ [c], false⟩ (1 + s.data.length) = .ok c :=
    Sequence.byteAt_append_cons _ _ _ _ _ s.bytes_length.symm
  have hslice : Sequence.slice ⟨s.bytes ++ [c], false⟩ 0 (1 + s.data.length) =
      .ok ⟨s.bytes, false⟩ := by
    rw [Sequence.slice_eq _ _ _ (by omega) (by rw [hsize]; omega), List.drop_zero,
      ← s.bytes_length, List.take_left]
  simp only [createSlave, Sequence.reduce_reduced, hsize, h0, ok_bind, s.nn_toNat, hslice, hc,
    Sequence.crc_eq, Sequence.extend_reduced]
  rw [if_neg (by omega), if_neg (by omega), if_neg (by omega), if_neg (by omega),
    if_neg (by omega)]
  by_cases h : s.crc = c
  · have hloop : crcLoop (extendBytes s.bytes) = c := h
    simp only [hloop, h, ne_eq, not_true_eq_false, if_false, if_true]
    rfl
  · have hloop : crcLoop (extendBytes s.bytes) ≠ c := h
    simp only [hloop, h, ne_eq, not_false_eq_true, if_true, if_false]
    rfl

/-- Anything else only sets the error state. -/
theorem createSlave_reject (tel : Telegram) (l : List Byte)
    (hbare : ∀ s : Slave, l = s.bytes → s.data = [])
    (hfull : ∀ (s : Slave) (c : Byte), l ≠ s.bytes ++ [c]) :
    ∃ e, e ≠ SEQ_OK ∧ tel.createSlave ⟨l, false⟩ =
      .ok ({ tel with slaveState := e }, ⟨l, false⟩) := by
  by_cases hsize : l.length < 2
  · exact ⟨SEQ_ERR_SHORT, by decide, by simp [createSlave, Sequence.size, hsize]; rfl⟩
  obtain ⟨n, d, rfl⟩ : ∃ n d, l = n :: d := by
    rcases l with _ | ⟨n, d⟩ <;> simp at hsize
    exact ⟨n, d, rfl⟩
  have hlen : Sequence.size ⟨n :: d, false⟩ = 1 + d.length := by
    simp only [Sequence.size, List.length_cons]
    omega
  have h0 : Sequence.byteAt ⟨n :: d, false⟩ 0 = .ok n := rfl
  simp only [List.length_cons] at hsize
  simp only [createSlave, Sequence.reduce_reduced, hlen, h0, ok_bind]
  rw [if_neg (by omega)]
  by_cases hn : n.toNat > seqMaxBytes
  · exact ⟨SEQ_ERR_NN, by decide, by simp [hn]; rfl⟩
  by_cases hshort : 1 + d.length < 1 + n.toNat
  · exact ⟨SEQ_ERR_SHORT, by decide, by simp [hn, hshort]; rfl⟩
  by_cases hlong : 1 + d.length > 1 + n.toNat + 1
  · exact ⟨SEQ_ERR_LONG, by decide, by simp [hn, hshort, hlong]; rfl⟩
  -- what is left is a part with at most one byte behind it
  obtain ⟨s, rest, hs, hrest, he⟩ := exists_slave (by omega) (by omega : n.toNat ≤ d.length)
  rcases rest with _ | ⟨c, _ | ⟨c', rest⟩⟩
  · have hd := hbare s (by simpa using he)
    rw [hd] at hs
    simp only [List.length_nil] at hs hrest
    omega
  · exact absurd he (hfull s c)
  · simp only [List.length_cons] at hrest
    omega

/-- What `createSlave` does with a reduced sequence. -/
theorem createSlave_spec (tel : Telegram) (l : List Byte) :
    (∃ (s : Slave) (stored seq : Sequence), s.Text l stored ∧
      tel.createSlave ⟨l, false⟩ = .ok (tel.withSlave s stored s.crc SEQ_OK, seq)) ∨
    (∃ (slave seq : Sequence) (nn : Nat) (crc : Byte) (e : Int), e ≠ SEQ_OK ∧
      (∀ (s : Slave) (stored : Sequence), ¬ s.Text l stored) ∧
      tel.createSlave ⟨l, false⟩ = .ok ({ tel with
        slave := slave, slaveNN := nn, slaveCRC := crc, slaveState := e }, seq)) := by
  by_cases hbare : ∃ s : Slave, l = s.bytes ∧ s.data ≠ []
  · obtain ⟨s, rfl, hs⟩ := hbare
    exact .inl ⟨s, _, _, .bare hs, createSlave_bare tel s hs⟩
  by_cases hfull : ∃ (s : Slave) (c : Byte), l = s.bytes ++ [c]
  · obtain ⟨s, c, rfl⟩ := hfull
    have hrun := createSlave_full tel s c
    by_cases hc : s.crc = c
    · subst hc
      rw [if_pos rfl] at hrun
      exact .inl ⟨s, _, _, .full, hrun⟩
    · rw [if_neg hc] at hrun
      refine .inr ⟨_, _, _, _, SEQ_ERR_CRC, by decide, fun s' stored h => ?_, hrun⟩
      generalize he : s.bytes ++ [c] = l at h
      cases h with
      | bare hs' => exact hbare ⟨s', he, hs'⟩
      | full =>
        obtain ⟨rfl, hr⟩ := Slave.bytes_append_inj he
        exact hc (by simpa using hr.symm)
  · have hb : ∀ s : Slave, l = s.bytes → s.data = [] := fun s h =>
      by_contra fun hs => hbare ⟨s, h, hs⟩
    have hf : ∀ (s : Slave) (c : Byte), l ≠ s.bytes ++ [c] := fun s c h => hfull ⟨s, c, h⟩
    obtain ⟨e, he, hrun⟩ := tel.createSlave_reject l hb hf
    refine .inr ⟨tel.slave, _, tel.slaveNN, tel.slaveCRC, e, he, fun s stored h => ?_, hrun⟩
    cases h with
    | bare hs => exact hs (hb s rfl)
    | full => exact hf s s.crc rfl

/-- What `createSlave` does with a text of a part. -/
theorem createSlave_text (tel : Telegram) {s : Slave} {l : List Byte} {stored : Sequence}
    (ht : s.Text l stored) :
    ∃ seq, tel.createSlave ⟨l, false⟩ = .ok (tel.withSlave s stored s.crc SEQ_OK, seq) := by
  rcases createSlave_spec tel l with ⟨s', stored', seq, ht', hrun⟩ | ⟨_, _, _, _, _, -, hno, -⟩
  · obtain ⟨rfl, rfl⟩ := ht.unique ht'
    exact ⟨seq, hrun⟩
  · exact absurd ht (hno s stored)

/-- An accepted call of `createSlave`. -/
theorem createSlave_ok {tel₀ tel : Telegram} {seq seq' : Sequence}
    (hrun : tel₀.createSlave seq = .ok (tel, seq')) (hstate : tel.slaveState = SEQ_OK) :
    ∃ (s : Slave) (stored : Sequence), s.Text seq.reduce.seq stored ∧
      tel = tel₀.withSlave s stored s.crc SEQ_OK := by
  rw [createSlave_reduce] at hrun
  rcases createSlave_spec tel₀ seq.reduce.seq with ⟨s, stored, _, ht, h⟩ | ⟨_, _, _, _, e, he, -, h⟩
  · rw [h] at hrun
    cases hrun
    exact ⟨s, stored, ht, rfl⟩
  · rw [h] at hrun
    cases hrun
    exact absurd hstate he

end Telegram

/-! ### The overloads that take byte vectors -/

theorem foldl_pushBack (l : List Byte) (s : Sequence) (e : Bool) (h : s.extended = e) :
    l.foldl (fun seq byte => seq.pushBack byte e) s = ⟨s.seq ++ l, e⟩ := by
  induction l generalizing s with
  | nil => rw [List.foldl_nil, List.append_nil, ← h]
  | cons b l ih =>
    rw [List.foldl_cons, ih _ rfl, Sequence.pushBack_seq, List.append_assoc, List.singleton_append]

theorem createSlaveFrom_eq (tel : Telegram) (response : List Byte) :
    tel.createSlaveFrom response = tel.createSlave ⟨response, false⟩ := by
  rw [Telegram.createSlaveFrom, foldl_pushBack response {} false rfl]
  rfl

theorem createMasterFrom_eq (tel : Telegram) (src : Byte) (vec : List Byte) :
    tel.createMasterFrom src vec = tel.createMaster ⟨src :: vec, false⟩ := by
  rw [Telegram.createMasterFrom, foldl_pushBack vec _ false rfl]
  rfl

end EBusFsm
