import EBusFsm.Machine.Reception

/-!
# Framing of well-formed telegrams

The receivers find the end of a part by counting while it arrives. `receiveMessage` takes NN at the fifth
raw byte, where it stands only if neither PB nor SB is escaped; an escape in front of it moves SB, or the
code byte of SB, to that place. `framed_extend_iff` says when the count comes out right all the same, and
`receive_exact_iff` that the message is received exactly then. In a response nothing stands in front of NN,
so it is received exactly, always.
-/

namespace EBusFsm

open Prog

/-- What follows the two addresses in the escaped form of the part and its CRC. -/
def Master.remainder (m : Master) : List Byte := (extendBytes m.frame).drop 2

/-- The echo of the acknowledge byte, which a broadcast does not get. -/
def Master.echo (m : Master) (x : Byte) : List Byte := if m.zz = seqBroad then [] else [x]

/-- What the bus carries behind the addresses: the rest of the message, the echo and what follows. -/
def Master.onBus (m : Master) (x : Byte) (cont : List RecvResult) : List RecvResult :=
  m.remainder.map .byte ++ ((m.echo x).map .byte ++ cont)

/-- What the bus carries: the response, the echo of the acknowledge byte and what follows. -/
def Slave.onBus (s : Slave) (x : Byte) (cont : List RecvResult) : List RecvResult :=
  (extendBytes s.frame).map .byte ++ .byte x :: cont

/-- The process callback is called with a message that reduces to the part, if there is one. -/
def Handed (m : Master) (w : World) : Prop :=
  ∃ message, reduceBytes message = m.bytes ∧ (exec processMessage w).2.events =
    w.events ++ if w.impl.processing then [.processed message] else []

/-- `receiveMessage` consumes exactly the part and its CRC, acknowledges them and hands them on. -/
def TakesMessage (impl : EbusImpl) (env : Env) (m : Master) (cont : List RecvResult) : Prop :=
  ∃ w, exec receiveMessage { impl, env } = (.ok .processMessage, w) ∧
    receivedBytes w.events = m.remainder ∧ w.env.reads = cont ∧
    wroteBytes w.events = (if m.zz = seqBroad then [] else [seqAck]) ∧ Handed m w

/-- `receiveResponse` consumes exactly the part and its CRC, acknowledges and stores them. -/
def TakesResponse (impl : EbusImpl) (env : Env) (s : Slave) (cont : List RecvResult) : Prop :=
  ∃ w message, exec receiveResponse { impl, env } = (.ok .freeBus, w) ∧
    receivedBytes w.events = extendBytes s.frame ∧ w.env.reads = cont ∧
    wroteBytes w.events = [seqAck] ∧ w.impl.activeMessage = some message ∧
    message.telegram.slaveState = SEQ_OK ∧ reduceBytes message.telegram.slave.seq = s.bytes

/-- The byte at the place of NN is NN, or it makes the receiver count as many bytes. -/
def Aligned (m : Master) : Prop :=
  (¬ ebusCode.Reserved m.pb ∧ ¬ ebusCode.Reserved m.sb) ∨
    (ebusCode.Reserved m.pb ∧ m.sb.toNat = m.data.length + 1 ∧ m.sb.toNat ≤ seqMaxBytes) ∨
    (¬ ebusCode.Reserved m.pb ∧ m.sb = seqSyn ∧ m.data = [])

instance (m : Master) : Decidable (Aligned m) := inferInstanceAs (Decidable (_ ∨ _ ∨ _))

/-! ### The raw bytes -/

/-- What the receiver counts when stuffed bytes stand behind the size byte. -/
theorem framed_extendBytes_iff (qq zz pb sb nn : Byte) (l : List Byte) :
    Framed (qq :: zz :: pb :: sb :: nn :: extendBytes l) ↔
      nn.toNat ≤ seqMaxBytes ∧ l.length = nn.toNat + 1 := by
  rw [framed_iff_counted, extendBytes_eq_stuff]
  apply and_congr_right
  intro _
  have hl := ebusCode.counted_stuff l
  exact ⟨fun h => hl.unique h, fun h => h ▸ hl⟩

theorem extendBytes_cons {b : Byte} (hb : ¬ ebusCode.Reserved b) (l : List Byte) :
    extendBytes (b :: l) = b :: extendBytes l := by
  rw [extendBytes_eq_stuff, extendBytes_eq_stuff, ebusCode.stuff_cons_of_not_reserved hb]

theorem extendBytes_syn (l : List Byte) :
    extendBytes (seqSyn :: l) = seqExp :: seqSynexp :: extendBytes l := by
  rw [extendBytes_eq_stuff, extendBytes_eq_stuff]
  exact ebusCode.stuff_flag l

theorem extendBytes_exp (l : List Byte) :
    extendBytes (seqExp :: l) = seqExp :: seqExpexp :: extendBytes l := by
  rw [extendBytes_eq_stuff, extendBytes_eq_stuff]
  exact ebusCode.stuff_esc l

/-- A reserved byte becomes the expand byte and a code byte that is not reserved. -/
theorem extendBytes_reserved {b : Byte} (hb : ebusCode.Reserved b) : ∃ code,
    ¬ ebusCode.Reserved code ∧ ∀ l, extendBytes (b :: l) = seqExp :: code :: extendBytes l := by
  rcases hb with rfl | rfl
  · exact ⟨seqSynexp, ebusCode.not_reserved_flagCode, extendBytes_syn⟩
  · exact ⟨seqExpexp, ebusCode.not_reserved_escCode, extendBytes_exp⟩

namespace Master

variable (m : Master)

theorem nn_not_reserved : ¬ ebusCode.Reserved m.nn := by
  apply not_reserved_of_le
  rw [m.nn_toNat]
  exact m.bound

theorem extendBytes_frame : extendBytes m.frame = m.qq :: m.zz ::
    extendBytes (m.pb :: m.sb :: m.nn :: (m.data ++ [m.crc])) := by
  rw [frame, bytes, List.cons_append, List.cons_append,
    extendBytes_cons (not_reserved_of_isMaster m.source),
    extendBytes_cons (not_reserved_of_isAddressValid m.target)]
  rfl

theorem cons_remainder : m.qq :: m.zz :: m.remainder = extendBytes m.frame := by
  rw [remainder, m.extendBytes_frame]
  rfl

/-- **The receiver counts the escaped form of a part and its CRC exactly when the byte at the place of NN
makes it do so.** -/
theorem framed_extend_iff : Framed (extendBytes m.frame) ↔ Aligned m := by
  have hbound := m.bound
  have hnn := m.nn_not_reserved
  have hsyn : seqSynexp.toNat = 1 := rfl
  have hexp : seqExpexp.toNat = 0 := rfl
  rw [m.extendBytes_frame, Aligned]
  by_cases hpb : ebusCode.Reserved m.pb
  · obtain ⟨code, -, hcode⟩ := extendBytes_reserved hpb
    rw [hcode]
    by_cases hsb : ebusCode.Reserved m.sb
    · -- the expand byte of SB stands at the place of NN
      have hlarge : ¬ m.sb.toNat ≤ seqMaxBytes := fun h => not_reserved_of_le h hsb
      obtain ⟨code', -, hcode'⟩ := extendBytes_reserved hsb
      rw [hcode', framed_iff_counted]
      have hesc : ¬ seqExp.toNat ≤ seqMaxBytes := by decide
      simp only [hesc, hpb, hlarge, hsb, not_true_eq_false, false_and, and_false, or_false]
    · -- SB stands there, and NN is counted as a data byte
      rw [extendBytes_cons hsb, framed_extendBytes_iff, List.length_cons, List.length_append,
        List.length_singleton]
      simp only [hpb, hsb, not_true_eq_false, false_and, false_or, not_false_eq_true, true_and, or_false]
      omega
  · rw [extendBytes_cons hpb]
    simp only [hpb, not_false_eq_true, true_and, false_and, false_or]
    by_cases hsb : ebusCode.Reserved m.sb
    · -- the code byte of SB stands there
      rcases hsb with hsb | hsb
      · have hsb' : m.sb = seqSyn := hsb
        rw [hsb', extendBytes_syn, framed_extendBytes_iff, hsyn, List.length_cons, List.length_append,
          List.length_singleton]
        have hreserved : ebusCode.Reserved seqSyn := ebusCode.reserved_flag
        simp only [hreserved, not_true_eq_false, false_or, true_and]
        rw [← List.length_eq_zero_iff]
        have hone : (1 : Nat) ≤ seqMaxBytes := by decide
        omega
      · have hsb' : m.sb = seqExp := hsb
        rw [hsb', extendBytes_exp, framed_extendBytes_iff, hexp, List.length_cons, List.length_append,
          List.length_singleton]
        have hreserved : ebusCode.Reserved seqExp := ebusCode.reserved_esc
        have hne : seqExp ≠ seqSyn := by decide
        simp only [hreserved, hne, not_true_eq_false, false_or, false_and, iff_false]
        omega
    · rw [extendBytes_cons hsb, extendBytes_cons hnn, framed_extendBytes_iff, m.nn_toNat,
        List.length_append, List.length_singleton]
      exact iff_of_true ⟨hbound, rfl⟩ (.inl hsb)

end Master

/-! ### The message -/

/-- The bytes behind the message are the echo of the acknowledge byte, if there is one. -/
theorem Acknowledged.rest {m : Master} {evs : List Event} {w w' : World} {r : List Byte} {x : Byte}
    {cont : List RecvResult} (h : Acknowledged m evs) (ha : Adv w w' (r.map .got ++ evs))
    (hreads : w.env.reads = r.map .byte ++ ((m.echo x).map .byte ++ cont)) :
    w'.env.reads = cont ∧ wroteBytes evs = if m.zz = seqBroad then [] else [seqAck] := by
  have hrest := List.append_cancel_left (hreads.symm.trans ha.reads_got)
  unfold Master.echo at hrest
  cases h with
  | broadcast hbc =>
    rw [if_pos (m.type_eq_BC.1 hbc)] at hrest ⊢
    exact ⟨hrest.symm, rfl⟩
  | ack hbc x' =>
    have hzz : m.zz ≠ seqBroad := fun h => hbc (m.type_eq_BC.2 h)
    rw [if_neg hzz] at hrest ⊢
    exact ⟨(List.cons.inj hrest).2.symm, rfl⟩

/-- `processMessage` hands on the part that `receiveMessage` has accepted. -/
theorem handed_of_text {m : Master} {stored : Sequence} {w : World}
    (ht : m.Text w.impl.sequence.reduce.seq stored) (hstored : stored = ⟨extendBytes m.bytes, true⟩) :
    Handed m w := by
  refine ⟨stored.seq, by rw [hstored, reduceBytes_extendBytes], ?_⟩
  let C : World → Prop := fun w' =>
    w'.events = w.events ++ if w.impl.processing then [.processed stored.seq] else []
  have hwp : wp processMessage (fun _ => C) (fun _ _ => False) w :=
    wp_processMessage _ _ w ht (fun _ _ _ _ _ _ _ => rfl) rfl
  obtain ⟨state, w', hrun, hevents⟩ := exists_of_wp hwp
  rw [hrun]
  exact hevents

/-- A message that the receiver counts is received. -/
theorem takesMessage_of_framed {impl : EbusImpl} {env : Env} {m : Master} {x : Byte}
    {cont : List RecvResult} (hseq : impl.sequence = ⟨[m.qq, m.zz], true⟩)
    (hreads : env.reads = m.remainder.map .byte ++ ((m.echo x).map .byte ++ cont))
    (hsends : ∀ r ∈ env.sends, r = .ok) (hframed : Framed (extendBytes m.frame)) :
    TakesMessage impl env m cont := by
  have hreduce : reduceBytes (m.qq :: m.zz :: m.remainder) = m.frame := by
    rw [m.cons_remainder, reduceBytes_extendBytes]
  have htext : m.Text (reduceBytes (m.qq :: m.zz :: m.remainder)) ⟨extendBytes m.bytes, true⟩ := by
    rw [hreduce]
    exact .full
  rw [← m.cons_remainder] at hframed
  let Q : State → World → Prop := fun state w => state = .processMessage ∧
    receivedBytes w.events = m.remainder ∧ w.env.reads = cont ∧
    wroteBytes w.events = (if m.zz = seqBroad then [] else [seqAck]) ∧ Handed m w
  have hwp : wp receiveMessage Q (fun _ _ => False) { impl, env } := by
    refine wp_receiveMessage_framed Q _ { impl, env } hseq hframed hreads ?_ ?_ ?_ ?_
    · intro w' hno _
      exact hno m.zz htext.byteAt_one
    · intro m' stored seq evs w' ht hevs ha hred hi
      obtain ⟨rfl, hstored⟩ := ht.eq_of_frame hreduce
      obtain ⟨hcont, hwrote⟩ := hevs.rest ha hreads
      refine ⟨rfl, ha.received rfl (hevs.received stored), hcont, ?_, ?_⟩
      · have hnone : wroteBytes (receivedEvents m' stored) = [] := by
          unfold receivedEvents
          split_ifs <;> rfl
        simp only [ha.events, List.nil_append, wroteBytes_append, wroteBytes_map_got, hwrote, hnone,
          List.append_nil]
      · refine handed_of_text ?_ hstored
        rw [hi]
        show m'.Text seq.reduce.seq stored
        rw [hred]
        exact ht
    · intro evs w' hno
      exact absurd htext (hno _ _)
    · intro e w' evs h hacked
      cases hacked with
      | refused hno => exact hno (headD_sends hsends)
      | nak hno => exact hno _ _ htext
      | ack ht hbc =>
        obtain ⟨rfl, -⟩ := ht.eq_of_frame hreduce
        have hecho : Master.echo _ x = [x] := if_neg fun h => hbc (Master.type_eq_BC _ |>.2 h)
        rw [hecho] at hreads
        exact h.not_acked hreads (headD_sends fun r hr => hsends r (List.mem_of_mem_tail hr))
  obtain ⟨state, w, hrun, rfl, h⟩ := exists_of_wp hwp
  exact ⟨w, hrun, h⟩

/-- The receiver has counted what it consumed before it returned `ProcessMessage`. -/
theorem TakesMessage.framed {impl : EbusImpl} {env : Env} {m : Master} {cont : List RecvResult}
    (hseq : impl.sequence = ⟨[m.qq, m.zz], true⟩) (h : TakesMessage impl env m cont) :
    Framed (extendBytes m.frame) := by
  obtain ⟨w, hrun, hreceived, -⟩ := h
  let Q : State → World → Prop := fun state w => state = .processMessage →
    Framed (m.qq :: m.zz :: receivedBytes w.events)
  have hwp : wp receiveMessage Q (fun _ _ => True) { impl, env } := by
    refine wp_receiveMessage Q _ { impl, env } hseq ?_ ?_ ?_ ?_ ?_ ?_
    · exact fun _ _ _ _ _ => trivial
    · exact fun _ _ _ _ _ _ _ => trivial
    · exact fun _ _ _ _ _ _ _ _ _ => nofun
    · intro r m' stored seq evs w' hr _ hevs ha _ _ _
      rw [ha.received rfl (hevs.received stored)]
      exact hr
    · exact fun _ _ _ _ _ _ _ _ => nofun
    · exact fun _ _ _ _ _ => trivial
  have hframed : Framed (m.qq :: m.zz :: receivedBytes w.events) := wp_ok hwp hrun rfl
  rwa [hreceived, m.cons_remainder] at hframed

/-! ### The response -/

theorem Slave.response_extend (s : Slave) : Response (extendBytes s.frame) := by
  have hle : s.nn.toNat ≤ seqMaxBytes := by
    rw [s.nn_toNat]
    exact s.bound
  have hcount : ebusCode.Counted (s.nn.toNat + 1) (extendBytes (s.data ++ [s.crc])) := by
    rw [s.nn_toNat, extendBytes_eq_stuff, ← List.length_singleton (a := s.crc), ← List.length_append]
    exact ebusCode.counted_stuff _
  rw [Slave.frame, Slave.bytes, List.cons_append, extendBytes_cons (not_reserved_of_le hle)]
  exact .intro s.nn hle hcount

/-- `receiveResponse` on a stream that starts with an acceptable response. -/
theorem wp_receiveResponse_text (Q : State → World → Prop) (E : Stop → World → Prop) (w : World)
    {message : Message} (hmessage : w.impl.activeMessage = some message) {raw : List Byte}
    {rest : List RecvResult} {s : Slave} {stored : Sequence} (hraw : Response raw)
    (hreads : w.env.reads = raw.map .byte ++ rest) (ht : s.Text (reduceBytes raw) stored)
    (haccept : ∀ x w', Adv w w' (raw.map .got ++ [.wrote seqAck, .got x]) →
      w'.impl = { w.impl with
        activeMessage :=
          some { message with telegram := respondedTelegram message.telegram s stored } } →
      Q .freeBus w')
    (hstop : ∀ e w' evs, Halt w e w' (raw.map .got ++ evs) →
      ResponseStopped (reduceBytes raw) w.env.sends evs → E e w') : wp receiveResponse Q E w := by
  -- no rejected response stands in front
  have hfirst : ∀ {evs w₁}, Retried evs → Adv w w₁ evs → evs = [] := by
    intro evs w₁ hevs h₁
    refine hevs.resolve_right fun hrej => ?_
    exact (hrej.next h₁).1.not_text hraw hreads ht
  have hreads₁ : ∀ {w₁}, Adv w w₁ [] → w₁.env.reads = raw.map .byte ++ rest := fun h₁ =>
    h₁.reads.symm.trans hreads
  refine wp_receiveResponse Q E w hmessage ?_ ?_ ?_ ?_
  · intro evs nn message' w₁ w' hevs h₁ hnn h _ _ _
    obtain rfl := hfirst hevs h₁
    exact absurd (hraw.head_le (hreads₁ h₁) h.reads) (Nat.not_le_of_gt hnn)
  · intro evs raw' s' stored' x w₁ w' hevs h₁ hraw' ht' h hi
    obtain rfl := hfirst hevs h₁
    obtain ⟨rfl, -⟩ := hraw.byte_inj hraw' (hreads₁ h₁) h.reads_got
    obtain ⟨rfl, rfl⟩ := ht.unique ht'
    exact haccept x w' (h₁.trans h) hi
  · intro evs evs' message' w₁ w' hrej h₁ _ _ _ _ _
    exact absurd ht ((hrej.next h₁).1.not_text hraw hreads)
  · intro e w₁ w' evs evs' h₁ h hevs hstopped
    obtain rfl := hfirst hevs h₁
    cases hstopped with
    | reading r hun hdry => exact absurd hraw (hdry.not_prefix hun (hreads₁ h₁))
    | acking hraw' hreads' hacked =>
      obtain ⟨rfl, rfl⟩ := hraw.byte_inj hraw' (hreads₁ h₁) hreads'
      have hsends : w₁.env.sends = w.env.sends := h₁.sends
      rw [hsends] at hacked
      exact hstop e w' _ (h₁.halt h) hacked

/-- The first attempt of `receiveResponse` receives the response. -/
theorem takesResponse {impl : EbusImpl} {env : Env} {message : Message} {s : Slave} {x : Byte}
    {cont : List RecvResult} (hmessage : impl.activeMessage = some message)
    (hreads : env.reads = (extendBytes s.frame).map .byte ++ .byte x :: cont)
    (hsends : ∀ r ∈ env.sends, r = .ok) : TakesResponse impl env s cont := by
  have htext : s.Text (reduceBytes (extendBytes s.frame)) ⟨extendBytes s.bytes, true⟩ := by
    rw [reduceBytes_extendBytes]
    exact .full
  let Q : State → World → Prop := fun state w => state = .freeBus ∧ ∃ message,
    receivedBytes w.events = extendBytes s.frame ∧ w.env.reads = cont ∧
    wroteBytes w.events = [seqAck] ∧ w.impl.activeMessage = some message ∧
    message.telegram.slaveState = SEQ_OK ∧ reduceBytes message.telegram.slave.seq = s.bytes
  have hwp : wp receiveResponse Q (fun _ _ => False) { impl, env } := by
    refine wp_receiveResponse_text Q _ { impl, env } hmessage s.response_extend hreads htext ?_ ?_
    · intro x' w' h hi
      have hrest := List.append_cancel_left (hreads.symm.trans h.reads_got)
      refine ⟨rfl, _, h.received_events rfl rfl, (List.cons.inj hrest).2.symm, ?_, by rw [hi], rfl,
        reduceBytes_extendBytes _⟩
      rw [h.events, List.nil_append, wroteBytes_append, wroteBytes_map_got]
      rfl
    · intro e w' evs h hacked
      cases hacked with
      | refused hno => exact hno (headD_sends hsends)
      | nak hno => exact hno _ _ htext
      | ack => exact h.not_acked hreads (headD_sends fun r hr => hsends r (List.mem_of_mem_tail hr))
  obtain ⟨state, w, hrun, rfl, message', h⟩ := exists_of_wp hwp
  exact ⟨w, message', hrun, h⟩

/-- **A message is received exactly when the byte at the place of NN makes the receiver count as many bytes
as there are; a response is received exactly, always.** -/
theorem receive_exact_iff {impl : EbusImpl} {env : Env} {x : Byte} {cont : List RecvResult}
    (hsends : ∀ r ∈ env.sends, r = .ok) :
    (∀ m : Master, impl.sequence = ⟨[m.qq, m.zz], true⟩ →
      env.reads = m.onBus x cont →
      (TakesMessage impl env m cont ↔ Aligned m)) ∧
    (∀ (s : Slave) (message : Message), impl.activeMessage = some message →
      env.reads = s.onBus x cont → TakesResponse impl env s cont) := by
  constructor
  · intro m hseq hreads
    rw [← m.framed_extend_iff]
    exact ⟨fun h => h.framed hseq, takesMessage_of_framed hseq hreads hsends⟩
  · intro s message hmessage hreads
    exact takesResponse hmessage hreads hsends

/-- The message `1004b5050127aa`, in which the second data byte is escaped, and the response `0127`. -/
theorem receive_exact_sample :
    let m : Master := ⟨0x10, 0x04, 0xb5, 0x05, [0x27, 0xaa], by decide, by decide, by decide⟩
    let s : Slave := ⟨[0x27], by decide⟩
    TakesMessage receivingImpl { reads := m.onBus 0x00 [.byte 0xaa] } m [.byte 0xaa] ∧
      TakesResponse receivingImpl { reads := s.onBus 0x00 [.byte 0xaa] } s [.byte 0xaa] := by
  intro m s
  constructor
  · exact ((receive_exact_iff fun r hr => absurd hr List.not_mem_nil).1 m rfl rfl).2 (by decide)
  · exact (receive_exact_iff fun r hr => absurd hr List.not_mem_nil).2 s _ rfl rfl

/-- The message `1004b5a900` has its SB escaped, and is rejected. -/
theorem receive_misaligned_sample :
    ¬ ∀ (impl : EbusImpl) (env : Env) (m : Master) (x : Byte) (cont : List RecvResult),
      impl.sequence = ⟨[m.qq, m.zz], true⟩ →
      env.reads = m.onBus x cont →
      (∀ r ∈ env.sends, r = .ok) → TakesMessage impl env m cont := by
  intro h
  let m : Master := ⟨0x10, 0x04, 0xb5, 0xa9, [], by decide, by decide, by decide⟩
  let env : Env := { reads := m.onBus 0x00 [.byte 0xaa] }
  obtain ⟨w, hrun, -⟩ := h receivingImpl env m 0x00 _ rfl rfl fun r hr => absurd hr List.not_mem_nil
  have hresult : (exec receiveMessage { impl := receivingImpl, env }).1 = .ok .monitorBus := by
    decide +kernel
  rw [hrun] at hresult
  exact nomatch hresult

end EBusFsm
