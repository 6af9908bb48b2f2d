import EBusFsm.Machine.Spec

/-!
# Reception without a check

`createMaster` and `createSlave` accept a part without its CRC, and the two receivers give them what
they counted. They count raw bytes, and one more for every escape byte; a synchronization byte counts
as well, but the reduction drops it, and an escape byte in the header of a message does not count. So a part
that arrives with one synchronization byte in it, or with one of its command bytes escaped, comes out one
byte short, is taken for a part without CRC, and is acknowledged unchecked.

`reception_checked_iff` says when: what a receiver acknowledges or hands on has its CRC, exactly when the
stream does not make it take such a part (`BareMessage`, `BareResponse`).
-/

namespace EBusFsm

open Prog

/-- A part whose size byte, at `k`, is the number of bytes behind it. -/
def Sized (k : Nat) (part : List Byte) : Prop :=
  ∃ nn, part[k]? = some nn ∧ part.length = k + 1 + nn.toNat

/-- Such a part and its CRC. -/
def Checked (k : Nat) (l : List Byte) : Prop := ∃ part, Sized k part ∧ l = part ++ [crcOf part]

/-- The bytes read before the first byte written. -/
def receivedBytes : List Event → List Byte
  | .got b :: evs => b :: receivedBytes evs
  | _ => []

/-- What was read before each byte written, without its echo, and that byte. -/
def answersFrom : List Byte → List Event → List (List Byte × Byte)
  | l, .got b :: evs => answersFrom (l ++ [b]) evs
  | l, .wrote b :: .got _ :: evs => (l, b) :: answersFrom [] evs
  | l, .wrote b :: _ => [(l, b)]
  | _, _ => []

/-- What `receiveMessage` acknowledges or hands on has its CRC. -/
def MessageChecked (impl : EbusImpl) (env : Env) : Prop :=
  ∀ result w, exec receiveMessage { impl, env } = (result, w) →
    .wrote seqAck ∈ w.events ∨ result = .ok .processMessage →
    Checked 4 (reduceBytes (impl.sequence.seq ++ receivedBytes w.events))

/-- What `receiveResponse` acknowledges has its CRC. -/
def ResponseChecked (impl : EbusImpl) (env : Env) : Prop :=
  ∀ result w, exec receiveResponse { impl, env } = (result, w) →
    ∀ l, (l, seqAck) ∈ answersFrom [] w.events → Checked 0 (reduceBytes l)

/-- The stream holds a message that is a master part alone once the escapes are removed, and the device
lets `receiveMessage` take it. -/
def BareMessage (impl : EbusImpl) (env : Env) : Prop :=
  ∃ (r : List Byte) (rest : List RecvResult) (m : Master), env.reads = r.map .byte ++ rest ∧
    Framed (impl.sequence.seq ++ r) ∧ reduceBytes (impl.sequence.seq ++ r) = m.bytes ∧
    m.data ≠ [] ∧ (m.type = .BC ∨ env.sends.headD .ok = .ok)

/-- The stream starts with a response that is a slave part alone once the escapes are removed, and the
device accepts the next write. -/
def BareNext (reads : List RecvResult) (sends : List SendResult) : Prop :=
  ∃ (raw : List Byte) (rest : List RecvResult) (s : Slave), reads = raw.map .byte ++ rest ∧
    Response raw ∧ reduceBytes raw = s.bytes ∧ s.data ≠ [] ∧ sends.headD .ok = .ok

/-- The stream starts with a response that is rejected, and `rest` follows the echo of the NAK. -/
def RejectedNext (reads rest : List RecvResult) : Prop :=
  ∃ (raw : List Byte) (x : Byte), reads = raw.map .byte ++ .byte x :: rest ∧ Response raw ∧
    ∀ (s : Slave) (stored : Sequence), ¬ s.Text (reduceBytes raw) stored

/-- One of the two attempts of `receiveResponse` meets such a response. -/
def BareResponse (env : Env) : Prop :=
  BareNext env.reads env.sends ∨ ∃ rest, RejectedNext env.reads rest ∧ env.sends.headD .ok = .ok ∧
    BareNext rest env.sends.tail

/-! ### Parts with and without CRC -/

theorem Master.sized (m : Master) : Sized 4 m.bytes :=
  ⟨m.nn, rfl, by rw [m.bytes_length, m.nn_toNat]⟩

theorem Slave.sized (s : Slave) : Sized 0 s.bytes :=
  ⟨s.nn, rfl, by rw [s.bytes_length, s.nn_toNat]⟩

theorem Master.checked (m : Master) : Checked 4 m.frame := ⟨m.bytes, m.sized, rfl⟩

theorem Slave.checked (s : Slave) : Checked 0 s.frame := ⟨s.bytes, s.sized, rfl⟩

/-- The size byte tells a part from a part with its CRC. -/
theorem Sized.not_checked {k : Nat} {l : List Byte} (h : Sized k l) : ¬ Checked k l := by
  rintro ⟨part, ⟨nn, hnn, hlen⟩, rfl⟩
  obtain ⟨nn', hnn', hlen'⟩ := h
  have hk : k < part.length := by omega
  rw [List.getElem?_append_left hk, hnn] at hnn'
  obtain rfl := Option.some.inj hnn'
  rw [List.length_append, List.length_singleton] at hlen'
  omega

/-! ### What the events say -/

theorem receivedBytes_append (r : List Byte) (evs : List Event) :
    receivedBytes (r.map .got ++ evs) = r ++ receivedBytes evs := by
  induction r with
  | nil => rfl
  | cons b r ih => exact congrArg (b :: ·) ih

/-- A piece reads `r` first, and what follows up to a write is no byte read. -/
theorem Adv.received {w w' : World} {r : List Byte} {evs : List Event}
    (h : Adv w w' (r.map .got ++ evs)) (hw : w.events = []) {evs' : List Event}
    (hevs : receivedBytes (evs ++ evs') = []) : receivedBytes (w'.events ++ evs') = r := by
  rw [h.events, hw, List.nil_append, List.append_assoc, receivedBytes_append, hevs, List.append_nil]

/-- What a piece reads before it writes. -/
theorem Adv.received_events {w w' : World} {r : List Byte} {evs : List Event}
    (h : Adv w w' (r.map .got ++ evs)) (hw : w.events = []) (hevs : receivedBytes evs = []) :
    receivedBytes w'.events = r := by
  rw [← List.append_nil w'.events]
  refine h.received hw ?_
  rw [List.append_nil]
  exact hevs

theorem answersFrom_append (l r : List Byte) (evs : List Event) :
    answersFrom l (r.map .got ++ evs) = answersFrom (l ++ r) evs := by
  induction r generalizing l with
  | nil => rw [List.append_nil]; rfl
  | cons b r ih =>
    rw [List.append_cons]
    exact ih (l ++ [b])

theorem not_wrote_mem_map_got (b : Byte) (r : List Byte) : .wrote b ∉ r.map Event.got := by
  simp

theorem not_wrote_mem_resetEvents (b : Byte) (message : Option Message) :
    .wrote b ∉ resetEvents message := by
  rcases message with _ | message <;> simp [resetEvents, finish]

theorem answersFrom_resetEvents (l : List Byte) (message : Option Message) :
    answersFrom l (resetEvents message) = [] := by
  rcases message with _ | message <;> rfl

/-- A rejected response was answered with a NAK. -/
theorem Rejected.answers {evs : List Event} (h : Rejected evs) (rest : List Event) :
    ∃ raw, answersFrom [] (evs ++ rest) = (raw, seqNak) :: answersFrom [] rest := by
  cases h with
  | @intro raw hraw h x =>
    refine ⟨raw, ?_⟩
    rw [List.append_assoc, answersFrom_append]
    rfl

theorem Retried.answers {evs : List Event} (h : Retried evs) {rest : List Event} {l : List Byte}
    (hl : (l, seqAck) ∈ answersFrom [] (evs ++ rest)) : (l, seqAck) ∈ answersFrom [] rest := by
  rcases h with rfl | hrej
  · exact hl
  · obtain ⟨raw, hraw⟩ := hrej.answers rest
    rw [hraw, List.mem_cons, Prod.mk.injEq] at hl
    exact hl.resolve_left fun h => absurd h.2 (by decide)

/-! ### Prefixes of the stream -/

theorem byte_prefix {r r' : List Byte} {t t' : List RecvResult}
    (h : r.map RecvResult.byte ++ t = r'.map RecvResult.byte ++ t') :
    (∃ u, r' = r ++ u) ∨ ∃ u, r = r' ++ u := by
  induction r generalizing r' with
  | nil => exact .inl ⟨r', rfl⟩
  | cons b r ih =>
    cases r' with
    | nil => exact .inr ⟨b :: r, rfl⟩
    | cons b' r' =>
      simp only [List.map_cons, List.cons_append, List.cons.injEq, RecvResult.byte.injEq] at h
      obtain ⟨rfl, hrest⟩ := h
      rcases ih hrest with ⟨u, rfl⟩ | ⟨u, rfl⟩
      · exact .inl ⟨u, rfl⟩
      · exact .inr ⟨u, rfl⟩

/-- A stream starts with at most one of these strings. -/
def PrefixFree (P : List Byte → Prop) : Prop :=
  ∀ r r' t t', P r → P r' → r ++ t = r' ++ t' → r = r'

theorem framed_prefixFree (pre : List Byte) : PrefixFree fun r => Framed (pre ++ r) := by
  intro r r' t t' h h' heq
  have hpre : (pre ++ r) ++ t = (pre ++ r') ++ t' := by
    rw [List.append_assoc, List.append_assoc, heq]
  exact List.append_cancel_left (h.append_inj h' hpre).1

theorem response_prefixFree : PrefixFree Response :=
  fun _ _ _ _ h h' heq => (h.append_inj h' heq).1

theorem PrefixFree.byte_inj {P : List Byte → Prop} (hP : PrefixFree P) {r r' : List Byte}
    {t t' : List RecvResult} (h : P r) (h' : P r')
    (heq : r.map RecvResult.byte ++ t = r'.map RecvResult.byte ++ t') : r = r' ∧ t = t' := by
  have hr : r = r' := by
    rcases byte_prefix heq with ⟨u, hu⟩ | ⟨u, hu⟩
    · exact hP r r' u [] h h' (by rw [hu, List.append_nil])
    · exact hP r r' [] u h h' (by rw [hu, List.append_nil])
  rw [hr] at heq
  exact ⟨hr, List.append_cancel_left heq⟩

/-- A reader that ran dry before the string was complete does not find the string on the stream. -/
theorem Dry.not_prefix {P : List Byte → Prop} {r r' : List Byte} {reads rest : List RecvResult}
    (hdry : Dry reads r') (hno : ∀ p t, r' = p ++ t → ¬ P p)
    (hreads : reads = r.map .byte ++ rest) : ¬ P r := by
  obtain ⟨rest', hr', hend⟩ := hdry
  intro h
  rw [hreads] at hr'
  rcases byte_prefix hr' with ⟨u, rfl⟩ | ⟨u, rfl⟩
  · exact hno r u rfl h
  · cases u with
    | nil => exact hno r' [] (List.append_nil _).symm (by rwa [List.append_nil] at h)
    | cons b u =>
      rw [List.map_append, List.append_assoc] at hr'
      exact hend b _ (List.append_cancel_left hr').symm

theorem Adv.sends_ok {w w' : World} {b : Byte} {evs evs' : List Event} (hevs : wroteBytes evs = [])
    (h : Adv w w' (evs ++ .wrote b :: evs')) : w.env.sends.headD .ok = .ok := by
  have hsent := h.sent
  rw [wroteBytes_append, hevs, wroteBytes_wrote] at hsent
  rcases hs : w.env.sends with _ | ⟨r, sends⟩
  · rfl
  · rw [hs] at hsent
    exact hsent r (by simp)

/-! ### `receiveMessage` -/

theorem Acknowledged.received {m : Master} {evs : List Event} (h : Acknowledged m evs)
    (stored : Sequence) : receivedBytes (evs ++ receivedEvents m stored) = [] := by
  unfold receivedEvents
  cases h with
  | broadcast => split_ifs <;> rfl
  | ack => rfl

/-- Unless the stream holds a bare message, an accepted message has its CRC. -/
theorem Master.Text.frame_of_not_bare {impl : EbusImpl} {env : Env} {qq zz : Byte}
    (hseq : impl.sequence = ⟨[qq, zz], true⟩) (hno : ¬ BareMessage impl env) {r : List Byte}
    {rest : List RecvResult} {m : Master} {stored : Sequence}
    (hreads : env.reads = r.map .byte ++ rest) (hr : Framed (qq :: zz :: r))
    (ht : m.Text (reduceBytes (qq :: zz :: r)) stored)
    (hsend : m.type = .BC ∨ env.sends.headD .ok = .ok) : reduceBytes (qq :: zz :: r) = m.frame := by
  have hpre : impl.sequence.seq = [qq, zz] := by rw [hseq]
  generalize hl : reduceBytes (qq :: zz :: r) = l at ht
  cases ht with
  | full => rfl
  | bare hm =>
    refine absurd ⟨r, rest, m, hreads, ?_, ?_, hm, hsend⟩ hno
    · rwa [hpre]
    · rw [hpre]
      exact hl

/-- The device accepted the acknowledge byte, if there is one. -/
theorem Acknowledged.sendable {m : Master} {r : List Byte} {evs : List Event} {w w' : World}
    (hevs : Acknowledged m evs) (h : Adv w w' (r.map .got ++ evs)) :
    m.type = .BC ∨ w.env.sends.headD .ok = .ok := by
  cases hevs with
  | broadcast hbc => exact .inl hbc
  | ack hbc x => exact .inr (h.sends_ok (wroteBytes_map_got r))

/-- Unless the stream holds a bare message, what is acknowledged or handed on has its CRC. -/
theorem messageChecked_of_not_bare {impl : EbusImpl} {env : Env} {qq zz : Byte}
    (hseq : impl.sequence = ⟨[qq, zz], true⟩) (hno : ¬ BareMessage impl env) :
    MessageChecked impl env := by
  have hpre : impl.sequence.seq = [qq, zz] := by rw [hseq]
  let Q : State → World → Prop := fun state w => .wrote seqAck ∈ w.events ∨ state = .processMessage →
    Checked 4 (reduceBytes (qq :: zz :: receivedBytes w.events))
  let E : Stop → World → Prop := fun _ w => .wrote seqAck ∈ w.events →
    Checked 4 (reduceBytes (qq :: zz :: receivedBytes w.events))
  have hwp : wp receiveMessage Q E { impl, env } := by
    refine wp_receiveMessage Q E { impl, env } hseq ?_ ?_ ?_ ?_ ?_ ?_
    · intro r w' _ _ h hack
      rw [h.events, List.nil_append] at hack
      exact absurd hack (not_wrote_mem_map_got _ _)
    · intro pb sb nn w' _ h _ hack
      rw [h.events] at hack
      simp at hack
    · rintro pb sb nn message w' _ h _ _ (hack | hstate)
      · simp only [World.reset, h.events, List.mem_append] at hack
        rcases hack with hack | hack
        · simp at hack
        · exact absurd hack (not_wrote_mem_resetEvents _ _)
      · cases hstate
    · intro r m stored seq evs w' hr ht hevs h _ _ _
      rw [h.received rfl (hevs.received stored)]
      rw [ht.frame_of_not_bare hseq hno h.reads_got hr (hevs.sendable h)]
      exact m.checked
    · rintro r evs w' _ _ hevs h _ (hack | hstate)
      · rw [h.events, List.nil_append] at hack
        rcases hevs with rfl | ⟨x, rfl⟩
        · simp at hack
        · simp [show seqAck ≠ seqNak by decide] at hack
      · cases hstate
    · intro e w' evs h hstop hack
      have hevents : w'.events = evs := h.events
      rw [hevents] at hack ⊢
      cases hstop with
      | reading r => exact absurd hack (not_wrote_mem_map_got _ _)
      | acking hr hreads hacked =>
        rw [receivedBytes_append]
        cases hacked with
        | refused => simp at hack
        | nak => simp [show seqAck ≠ seqNak by decide] at hack
        | ack ht _ hsend =>
          rw [show receivedBytes [Event.wrote seqAck] = [] from rfl, List.append_nil]
          rw [ht.frame_of_not_bare hseq hno hreads hr (.inr hsend)]
          exact Master.checked _
  intro result w hrun hacc
  rw [hpre]
  rcases result with e | state
  · exact (wp_error hwp hrun : E e w) (hacc.resolve_right (by simp))
  · exact (wp_ok hwp hrun : Q state w) (hacc.imp_right fun h => by simpa using h)

/-- The device has the echo of the acknowledge byte, and does not refuse to write. -/
theorem Halt.not_acked {w w' : World} {e : Stop} {r : List Byte} {b x : Byte} {rest : List RecvResult}
    (h : Halt w e w' (r.map .got ++ [.wrote b])) (hreads : w.env.reads = r.map .byte ++ .byte x :: rest)
    (hnext : w.env.sends.tail.headD .ok = .ok) : False := by
  rcases h.cause with ⟨t, ht, hend⟩ | hno
  · rw [hreads, gotBytes_append, gotBytes_map_got] at ht
    simp only [gotBytes_wrote, gotBytes_nil, List.append_nil] at ht
    exact hend x rest (List.append_cancel_left ht).symm
  · rw [wroteBytes_append, wroteBytes_map_got] at hno
    simp only [List.nil_append, wroteBytes_wrote, wroteBytes_nil, List.length_singleton,
      List.drop_one] at hno
    exact hno hnext

/-- `receiveMessage` on a stream that starts with a message. -/
theorem wp_receiveMessage_framed (Q : State → World → Prop) (E : Stop → World → Prop) (w : World)
    {qq zz : Byte} (hseq : w.impl.sequence = ⟨[qq, zz], true⟩) {r : List Byte} {rest : List RecvResult}
    (hr : Framed (qq :: zz :: r)) (hreads : w.env.reads = r.map .byte ++ rest)
    (hrange : ∀ w', (∀ b, Sequence.byteAt ⟨reduceBytes (qq :: zz :: r), false⟩ 1 ≠ .ok b) →
      Adv w w' (r.map .got) → E .outOfRange w')
    (haccept : ∀ m stored seq evs w', m.Text (reduceBytes (qq :: zz :: r)) stored →
      Acknowledged m evs → Adv w w' (r.map .got ++ evs) →
      seq.reduce.seq = reduceBytes (qq :: zz :: r) → w'.impl = { w.impl with sequence := seq } →
      Q .processMessage { w' with events := w'.events ++ receivedEvents m stored })
    (hreject : ∀ evs w',
      (∀ (m : Master) (stored : Sequence), ¬ m.Text (reduceBytes (qq :: zz :: r)) stored) →
      (evs = [] ∨ ∃ x, evs = [.wrote seqNak, .got x]) → Adv w w' (r.map .got ++ evs) →
      Q .monitorBus w')
    (hstop : ∀ e w' evs, Halt w e w' (r.map .got ++ evs) →
      AckStopped (reduceBytes (qq :: zz :: r)) w.env.sends evs → E e w') :
    wp receiveMessage Q E w := by
  have hfree := framed_prefixFree [qq, zz]
  have hsame : ∀ {r' : List Byte} {rest' : List RecvResult}, Framed (qq :: zz :: r') →
      w.env.reads = r'.map .byte ++ rest' → r = r' := fun hr' hreads' =>
    (hfree.byte_inj hr hr' (hreads.symm.trans hreads')).1
  -- the size byte on the stream is the one of the message
  have hheader : ∀ pb sb nn w', Adv w w' [.got pb, .got sb, .got nn] → nn.toNat ≤ seqMaxBytes := by
    intro pb sb nn w' h
    obtain ⟨_, _, pb', sb', nn', d, hd⟩ := hr.header
    obtain ⟨rfl, rfl, rfl⟩ : qq = _ ∧ zz = _ ∧ r = pb' :: sb' :: nn' :: d := by simpa using hd
    have hr' := h.reads
    rw [hreads] at hr'
    simp only [gotBytes_got, gotBytes_nil, List.map_cons, List.map_nil, List.cons_append,
      List.cons.injEq, RecvResult.byte.injEq] at hr'
    rw [← hr'.2.2.1]
    exact ((framed_iff _ _ _ _ _ _).1 hr).1
  refine wp_receiveMessage Q E w hseq ?_ ?_ ?_ ?_ ?_ ?_
  · intro r' w' hr' hno h
    obtain rfl := hsame hr' (by rw [h.reads, gotBytes_map_got])
    exact hrange w' hno h
  · intro pb sb nn w' hgt h
    exact absurd (hheader pb sb nn w' h) (Nat.not_le_of_gt hgt)
  · intro pb sb nn message w' hgt h
    exact absurd (hheader pb sb nn w' h) (Nat.not_le_of_gt hgt)
  · intro r' m stored seq evs w' hr' ht hevs h hred hi
    obtain rfl := hsame hr' h.reads_got
    exact haccept m stored seq evs w' ht hevs h hred hi
  · intro r' evs w' hr' hno hevs h _
    obtain rfl := hsame hr' h.reads_got
    exact hreject evs w' hno hevs h
  · intro e w' evs h hstopped
    cases hstopped with
    | reading r' hun hdry =>
      refine absurd hr (hdry.not_prefix (P := fun r => Framed ([qq, zz] ++ r)) ?_ hreads)
      intro p t hp
      exact hun (qq :: zz :: p) t (by rw [hp]; rfl)
    | acking hr' hreads' hacked =>
      obtain rfl := hsame hr' hreads'
      exact hstop e w' _ h hacked

/-- A bare message is acknowledged or handed on. -/
theorem not_messageChecked_of_bare {impl : EbusImpl} {env : Env} {qq zz : Byte}
    (hseq : impl.sequence = ⟨[qq, zz], true⟩) (hbare : BareMessage impl env) :
    ¬ MessageChecked impl env := by
  have hpre : impl.sequence.seq = [qq, zz] := by rw [hseq]
  obtain ⟨r, rest, m, hreads, hr, hl, hm, hsend⟩ := hbare
  rw [hpre] at hr hl
  have hframed : Framed (qq :: zz :: r) := hr
  have ht : m.Text (reduceBytes (qq :: zz :: r)) ⟨m.bytes, false⟩ := by
    rw [show qq :: zz :: r = [qq, zz] ++ r from rfl, hl]
    exact .bare hm
  let Q : State → World → Prop := fun state w =>
    (.wrote seqAck ∈ w.events ∨ state = .processMessage) ∧ receivedBytes w.events = r
  let E : Stop → World → Prop := fun _ w => .wrote seqAck ∈ w.events ∧ receivedBytes w.events = r
  have hwp : wp receiveMessage Q E { impl, env } := by
    refine wp_receiveMessage_framed Q E { impl, env } hseq hframed hreads ?_ ?_ ?_ ?_
    · intro w' hrange _
      exact absurd ht.byteAt_one (hrange m.zz)
    · intro m' stored seq evs w' _ hevs h _ _
      exact ⟨.inr rfl, h.received rfl (hevs.received stored)⟩
    · intro evs w' hrej
      exact absurd ht (hrej _ _)
    · intro e w' evs h hacked
      have hevents : w'.events = r.map .got ++ evs := h.events
      cases hacked with
      | refused hs hbc => exact absurd (hsend.resolve_left (hbc m _ ht)) hs
      | nak hrej => exact absurd ht (hrej m _)
      | ack =>
        unfold E
        rw [hevents, receivedBytes_append]
        exact ⟨by simp, List.append_nil _⟩
  intro hchecked
  have hbytes : Sized 4 (reduceBytes (impl.sequence.seq ++ r)) := by
    rw [hpre, hl]
    exact m.sized
  rcases hrun : exec receiveMessage { impl, env } with ⟨e | state, w⟩
  · have h : E e w := wp_error hwp hrun
    refine hbytes.not_checked ?_
    rw [← h.2]
    exact hchecked _ w hrun (.inl h.1)
  · have h : Q state w := wp_ok hwp hrun
    refine hbytes.not_checked ?_
    rw [← h.2]
    exact hchecked _ w hrun (h.1.imp_right fun h => by rw [h])

/-! ### `receiveResponse` -/

/-- A rejected response is on the stream, and the NAK was sent. -/
theorem Rejected.next {evs : List Event} {w w₁ : World} (h : Rejected evs) (ha : Adv w w₁ evs) :
    RejectedNext w.env.reads w₁.env.reads ∧ w.env.sends.headD .ok = .ok ∧
      w₁.env.sends = w.env.sends.tail := by
  cases h with
  | @intro raw hraw hrej x =>
    refine ⟨⟨raw, x, ha.reads_got, hraw, hrej⟩, ha.sends_ok (wroteBytes_map_got raw), ?_⟩
    rw [ha.sends]
    simp

theorem Retried.bareResponse {evs : List Event} {w w₁ : World} (h : Retried evs) (ha : Adv w w₁ evs)
    (hbare : BareNext w₁.env.reads w₁.env.sends) : BareResponse w.env := by
  rcases h with rfl | hrej
  · left
    have hr := ha.reads
    have hs := ha.sends
    simp only [gotBytes_nil, wroteBytes_nil, List.map_nil, List.nil_append, List.length_nil,
      List.drop_zero] at hr hs
    rwa [hr, ← hs]
  · right
    obtain ⟨hnext, hsend, htail⟩ := hrej.next ha
    rw [htail] at hbare
    exact ⟨_, hnext, hsend, hbare⟩

/-- Unless an attempt meets a bare response, an accepted response has its CRC. -/
theorem Slave.Text.frame_of_not_bare {w w₁ : World} {evs : List Event} {raw : List Byte}
    {rest : List RecvResult} {s : Slave} {stored : Sequence} (ht : s.Text (reduceBytes raw) stored)
    (hno : ¬ BareResponse w.env) (hevs : Retried evs) (ha : Adv w w₁ evs)
    (hreads : w₁.env.reads = raw.map .byte ++ rest) (hraw : Response raw)
    (hsend : w₁.env.sends.headD .ok = .ok) : reduceBytes raw = s.frame := by
  generalize hl : reduceBytes raw = l at ht
  cases ht with
  | full => rfl
  | bare hs => exact absurd (hevs.bareResponse ha ⟨raw, rest, s, hreads, hraw, hl, hs, hsend⟩) hno

/-- Unless an attempt meets a bare response, what is acknowledged has its CRC. -/
theorem responseChecked_of_not_bare {impl : EbusImpl} {env : Env} {message : Message}
    (hmessage : impl.activeMessage = some message) (hno : ¬ BareResponse env) :
    ResponseChecked impl env := by
  let C : World → Prop := fun w =>
    ∀ l, (l, seqAck) ∈ answersFrom [] w.events → Checked 0 (reduceBytes l)
  have hwp : wp receiveResponse (fun _ => C) (fun _ => C) { impl, env } := by
    refine wp_receiveResponse _ _ { impl, env } hmessage ?_ ?_ ?_ ?_
    · intro evs nn message' w₁ w' hevs h₁ _ h _ _ _ l hl
      simp only [World.reset, h.events, h₁.events, List.nil_append, List.append_assoc] at hl
      have hl' := hevs.answers hl
      rw [List.singleton_append, answersFrom, answersFrom_resetEvents] at hl'
      exact absurd hl' List.not_mem_nil
    · intro evs raw s stored x w₁ w' hevs h₁ hraw ht h _ l hl
      rw [h.events, h₁.events, List.nil_append] at hl
      have hl' := hevs.answers hl
      rw [answersFrom_append] at hl'
      obtain rfl : l = raw := by simpa [answersFrom] using hl'
      rw [ht.frame_of_not_bare hno hevs h₁ h.reads_got hraw (h.sends_ok (wroteBytes_map_got l))]
      exact s.checked
    · intro evs evs' message' w₁ w' hrej h₁ hrej' h _ _ _ l hl
      rw [h.events, h₁.events, List.nil_append] at hl
      have hl' := Retried.answers (.inr hrej) hl
      rw [← List.append_nil evs'] at hl'
      exact absurd (Retried.answers (.inr hrej') hl') List.not_mem_nil
    · intro e w₁ w' evs evs' h₁ h hevs hstop l hl
      rw [h.events, h₁.events, List.nil_append] at hl
      have hl' := hevs.answers hl
      cases hstop with
      | reading r =>
        rw [← List.append_nil (r.map Event.got), answersFrom_append] at hl'
        exact absurd hl' List.not_mem_nil
      | acking hraw hreads hacked =>
        rw [answersFrom_append] at hl'
        cases hacked with
        | refused => exact absurd hl' List.not_mem_nil
        | nak => simp [answersFrom, show seqAck ≠ seqNak by decide] at hl'
        | ack ht hsend =>
          simp only [answersFrom, List.nil_append, List.mem_singleton, Prod.mk.injEq] at hl'
          rw [hl'.1]
          rw [ht.frame_of_not_bare hno hevs h₁ hreads hraw hsend]
          exact Slave.checked _
  intro result w hrun
  rcases result with e | state
  · exact (wp_error hwp hrun : C w)
  · exact (wp_ok hwp hrun : C w)

theorem Response.byte_inj {raw raw' : List Byte} {reads t t' : List RecvResult} (h : Response raw)
    (h' : Response raw') (hreads : reads = raw.map .byte ++ t)
    (hreads' : reads = raw'.map .byte ++ t') : raw = raw' ∧ t = t' :=
  response_prefixFree.byte_inj h h' (hreads.symm.trans hreads')

/-- A response on the stream starts with a size byte that is in bounds. -/
theorem Response.head_le {raw : List Byte} {reads t t' : List RecvResult} {nn : Byte}
    (h : Response raw) (hreads : reads = raw.map .byte ++ t) (hreads' : reads = .byte nn :: t') :
    nn.toNat ≤ seqMaxBytes := by
  cases h with
  | intro nn' hnn =>
    rw [hreads'] at hreads
    simp only [List.map_cons, List.cons_append, List.cons.injEq, RecvResult.byte.injEq] at hreads
    rwa [hreads.1]

theorem BareNext.sized {reads t : List RecvResult} {sends : List SendResult} {raw : List Byte}
    (h : BareNext reads sends) (hraw : Response raw) (hreads : reads = raw.map .byte ++ t) :
    Sized 0 (reduceBytes raw) := by
  obtain ⟨raw', rest, s, hreads', hraw', hl, -, -⟩ := h
  obtain ⟨rfl, -⟩ := hraw.byte_inj hraw' hreads hreads'
  rw [hl]
  exact s.sized

theorem BareNext.not_rejected {reads rest : List RecvResult} {sends : List SendResult}
    (h : BareNext reads sends) : ¬ RejectedNext reads rest := by
  rintro ⟨raw, x, hreads, hraw, hrej⟩
  obtain ⟨raw', rest', s, hreads', hraw', hl, hs, -⟩ := h
  obtain ⟨rfl, -⟩ := hraw.byte_inj hraw' hreads hreads'
  refine hrej s ⟨s.bytes, false⟩ ?_
  rw [hl]
  exact .bare hs

/-- The attempt that meets a bare response acknowledges it, also when it is stopped. -/
theorem BareNext.stopped {env : Env} {evs : List Event} (h : BareNext env.reads env.sends)
    (hstop : AttemptStopped env evs) :
    ∃ raw, evs = raw.map .got ++ [.wrote seqAck] ∧ Sized 0 (reduceBytes raw) := by
  cases hstop with
  | reading r hun hdry =>
    obtain ⟨raw, rest, s, hreads, hraw, -⟩ := h
    exact absurd hraw (hdry.not_prefix hun hreads)
  | @acking raw evs reads hraw hreads hacked =>
    have hsized := h.sized hraw hreads
    obtain ⟨raw', rest, s, hreads', hraw', hl, hs, hsend⟩ := h
    obtain ⟨rfl, -⟩ := hraw.byte_inj hraw' hreads hreads'
    cases hacked with
    | refused hno => exact absurd hsend hno
    | nak hrej =>
      refine absurd ?_ (hrej s ⟨s.bytes, false⟩)
      rw [hl]
      exact .bare hs
    | ack => exact ⟨raw, rfl, hsized⟩

/-- The attempt that meets a rejected response comes to its end, when the device does not refuse the
writes. -/
theorem RejectedNext.not_stopped {w w' : World} {rest : List RecvResult} {evs : List Event} {e : Stop}
    (h : RejectedNext w.env.reads rest) (hsend : w.env.sends.headD .ok = .ok)
    (hnext : w.env.sends.tail.headD .ok = .ok) (hhalt : Halt w e w' evs) :
    ¬ AttemptStopped w.env evs := by
  obtain ⟨raw, x, hreads, hraw, hrej⟩ := h
  intro hstop
  cases hstop with
  | reading r hun hdry => exact absurd hraw (hdry.not_prefix hun hreads)
  | acking hraw' hreads' hacked =>
    obtain ⟨rfl, rfl⟩ := hraw.byte_inj hraw' hreads hreads'
    cases hacked with
    | refused hno => exact absurd hsend hno
    | ack ht => exact absurd ht (hrej _ _)
    | nak => exact hhalt.not_acked hreads hnext

theorem RejectedNext.unique {reads rest rest' : List RecvResult} (h : RejectedNext reads rest)
    (h' : RejectedNext reads rest') : rest = rest' := by
  obtain ⟨raw, x, hreads, hraw, -⟩ := h
  obtain ⟨raw', x', hreads', hraw', -⟩ := h'
  obtain ⟨-, ht⟩ := hraw.byte_inj hraw' hreads hreads'
  exact (List.cons.inj ht).2

/-- Behind a rejected response the last attempt meets the bare one. -/
theorem BareResponse.after_rejected {w w₁ : World} {evs : List Event} (h : BareResponse w.env)
    (hrej : Rejected evs) (ha : Adv w w₁ evs) : BareNext w₁.env.reads w₁.env.sends := by
  obtain ⟨hnext, -, htail⟩ := hrej.next ha
  rcases h with hbare | ⟨rest, hrest, -, hbare⟩
  · exact absurd hnext hbare.not_rejected
  · obtain rfl := hrest.unique hnext
    rwa [htail]

/-- An attempt of `receiveResponse` meets the bare response, or is the first and meets a rejected one
in front of it. -/
theorem BareResponse.attempt {w w₁ : World} {evs : List Event} (h : BareResponse w.env)
    (hevs : Retried evs) (ha : Adv w w₁ evs) :
    BareNext w₁.env.reads w₁.env.sends ∨
      ∃ rest, RejectedNext w₁.env.reads rest ∧ w₁.env.sends.headD .ok = .ok ∧
        BareNext rest w₁.env.sends.tail := by
  rcases hevs with rfl | hrej
  · have hr : w.env.reads = w₁.env.reads := ha.reads
    have hs : w₁.env.sends = w.env.sends := ha.sends
    rw [hs, ← hr]
    exact h
  · exact .inl (h.after_rejected hrej ha)

theorem BareNext.onStream {reads : List RecvResult} {sends : List SendResult}
    (h : BareNext reads sends) : ∃ raw t, Response raw ∧ reads = raw.map .byte ++ t := by
  obtain ⟨raw, t, -, hreads, hraw, -⟩ := h
  exact ⟨raw, t, hraw, hreads⟩

theorem RejectedNext.onStream {reads rest : List RecvResult} (h : RejectedNext reads rest) :
    ∃ raw t, Response raw ∧ reads = raw.map .byte ++ t := by
  obtain ⟨raw, x, hreads, hraw, -⟩ := h
  exact ⟨raw, _, hraw, hreads⟩

theorem RejectedNext.not_text {reads rest t : List RecvResult} {raw : List Byte} {s : Slave}
    {stored : Sequence} (h : RejectedNext reads rest) (hraw : Response raw)
    (hreads : reads = raw.map .byte ++ t) : ¬ s.Text (reduceBytes raw) stored := by
  obtain ⟨raw', x, hreads', hraw', hrej⟩ := h
  obtain ⟨rfl, -⟩ := hraw.byte_inj hraw' hreads hreads'
  exact hrej s stored

theorem mem_answers {evs : List Event} (h : Retried evs) {p : List Byte × Byte} {rest : List Event}
    (hp : p ∈ answersFrom [] rest) : p ∈ answersFrom [] (evs ++ rest) := by
  rcases h with rfl | hrej
  · exact hp
  · obtain ⟨raw, hraw⟩ := hrej.answers rest
    rw [hraw]
    exact List.mem_cons_of_mem _ hp

/-- A bare response is acknowledged. -/
theorem not_responseChecked_of_bare {impl : EbusImpl} {env : Env} {message : Message}
    (hmessage : impl.activeMessage = some message) (hbare : BareResponse env) :
    ¬ ResponseChecked impl env := by
  let U : World → Prop := fun w =>
    ∃ l, (l, seqAck) ∈ answersFrom [] w.events ∧ Sized 0 (reduceBytes l)
  have hwp : wp receiveResponse (fun _ => U) (fun _ => U) { impl, env } := by
    refine wp_receiveResponse _ _ { impl, env } hmessage ?_ ?_ ?_ ?_
    · intro evs nn message' w₁ w' hevs h₁ hgt h _ _ _
      obtain ⟨raw, t, hraw, hreads⟩ : ∃ raw t, Response raw ∧ w₁.env.reads = raw.map .byte ++ t := by
        rcases hbare.attempt hevs h₁ with hnext | ⟨rest, hrest, -⟩
        · exact hnext.onStream
        · exact hrest.onStream
      exact absurd (hraw.head_le hreads h.reads) (Nat.not_le_of_gt hgt)
    · intro evs raw s stored x w₁ w' hevs h₁ hraw ht h _
      rcases hbare.attempt hevs h₁ with hnext | ⟨rest, hrest, -⟩
      · refine ⟨raw, ?_, hnext.sized hraw h.reads_got⟩
        rw [h.events, h₁.events, List.nil_append]
        refine mem_answers hevs ?_
        rw [answersFrom_append]
        exact List.mem_singleton.2 rfl
      · exact absurd ht (hrest.not_text hraw h.reads_got)
    · intro evs evs' message' w₁ w' hrej h₁ hrej' h _ _ _
      exact absurd (hrej'.next h).1 (hbare.after_rejected hrej h₁).not_rejected
    · intro e w₁ w' evs evs' h₁ h hevs hstop
      rcases hbare.attempt hevs h₁ with hnext | ⟨rest, hrest, hsend, hnext⟩
      · obtain ⟨raw, rfl, hsized⟩ := hnext.stopped hstop
        refine ⟨raw, ?_, hsized⟩
        rw [h.events, h₁.events, List.nil_append]
        refine mem_answers hevs ?_
        rw [answersFrom_append]
        exact List.mem_singleton.2 rfl
      · obtain ⟨-, -, -, -, -, -, -, hnext⟩ := hnext
        exact absurd hstop (hrest.not_stopped hsend hnext h)
  intro hchecked
  rcases hrun : exec receiveResponse { impl, env } with ⟨e | state, w⟩
  · obtain ⟨l, hl, hsized⟩ : U w := wp_error hwp hrun
    exact hsized.not_checked (hchecked _ w hrun l hl)
  · obtain ⟨l, hl, hsized⟩ : U w := wp_ok hwp hrun
    exact hsized.not_checked (hchecked _ w hrun l hl)

/-- A message on the stream that comes with its CRC is not bare. -/
theorem not_bareMessage {impl : EbusImpl} {env : Env} {r : List Byte} {rest : List RecvResult}
    (hreads : env.reads = r.map .byte ++ rest) (hr : Framed (impl.sequence.seq ++ r))
    (hchecked : Checked 4 (reduceBytes (impl.sequence.seq ++ r))) : ¬ BareMessage impl env := by
  rintro ⟨r', rest', m, hreads', hr', hl, -, -⟩
  obtain ⟨rfl, -⟩ := (framed_prefixFree _).byte_inj hr hr' (hreads.symm.trans hreads')
  rw [hl] at hchecked
  exact m.sized.not_checked hchecked

/-- A response on the stream that comes with its CRC is neither bare nor rejected. -/
theorem not_bareResponse {env : Env} {raw : List Byte} {rest : List RecvResult} {s : Slave}
    (hreads : env.reads = raw.map .byte ++ rest) (hraw : Response raw)
    (hl : reduceBytes raw = s.frame) : ¬ BareResponse env := by
  rintro (hbare | ⟨rest', hrej, -, -⟩)
  · have hsized := hbare.sized hraw hreads
    rw [hl] at hsized
    exact hsized.not_checked s.checked
  · have hno : ¬ s.Text (reduceBytes raw) ⟨extendBytes s.bytes, true⟩ := hrej.not_text hraw hreads
    rw [hl] at hno
    exact hno .full

/-- **What a receiver acknowledges or hands on has its CRC, exactly when no bare part is on its
stream.** -/
theorem reception_checked_iff (impl : EbusImpl) (env : Env) :
    (∀ qq zz : Byte, impl.sequence = ⟨[qq, zz], true⟩ →
      (MessageChecked impl env ↔ ¬ BareMessage impl env)) ∧
    (∀ message : Message, impl.activeMessage = some message →
      (ResponseChecked impl env ↔ ¬ BareResponse env)) := by
  constructor
  · intro qq zz hseq
    exact ⟨fun hchecked hbare => not_messageChecked_of_bare hseq hbare hchecked,
      messageChecked_of_not_bare hseq⟩
  · intro message hmessage
    exact ⟨fun hchecked hbare => not_responseChecked_of_bare hmessage hbare hchecked,
      responseChecked_of_not_bare hmessage⟩

/-- A participant that has read the addresses `1004` and waits for the answer to its own telegram. -/
def receivingImpl : EbusImpl :=
  { address := 0xff
    slaveAddress := 0x04
    sequence := ⟨[0x10, 0x04], true⟩
    activeMessage := some { id := 0, telegram := {} } }

/-- The message `1004b5050127` and the response `0127` have their CRC. -/
theorem reception_checked_sample :
    MessageChecked receivingImpl { reads := [0xb5, 0x05, 0x01, 0x27, 0x24].map .byte ++ [.byte 0x00] } ∧
      ResponseChecked receivingImpl { reads := [0x01, 0x27, 0xbc].map .byte ++ [.byte 0x00] } := by
  constructor
  · refine ((reception_checked_iff _ _).1 0x10 0x04 rfl).2 ?_
    refine not_bareMessage (by rfl) ?_ ?_
    · exact .intro 0x10 0x04 0xb5 0x05 0x01 (by decide)
        (ebusCode.counted_of_plain (l := [0x27]) (by decide))
        (ebusCode.counted_of_plain (l := [0x24]) (by decide))
    · exact ⟨[0x10, 0x04, 0xb5, 0x05, 0x01, 0x27], ⟨0x01, rfl, rfl⟩, by decide⟩
  · refine ((reception_checked_iff _ _).2 _ rfl).2 ?_
    refine not_bareResponse (s := ⟨[0x27], by decide⟩) (by rfl) ?_ ?_
    · exact .intro 0x01 (by decide) (ebusCode.counted_of_plain (l := [0x27, 0xbc]) (by decide))
    · decide

/-- The message `1004b5050227aa11` is acknowledged without a CRC. -/
theorem reception_unchecked_sample :
    ¬ ∀ (impl : EbusImpl) (env : Env) (qq zz : Byte), impl.sequence = ⟨[qq, zz], true⟩ →
      Addressed impl zz → MessageChecked impl env := by
  intro h
  let m : Master := ⟨0x10, 0x04, 0xb5, 0x05, [0x27, 0xa9], by decide, by decide, by decide⟩
  let env : Env := { reads := [0xb5, 0x05, 0x02, 0x27, 0xaa, 0x11, 0x00].map .byte }
  have hr : Framed [0x10, 0x04, 0xb5, 0x05, 0x02, 0x27, 0xaa, 0x11] :=
    .intro 0x10 0x04 0xb5 0x05 0x02 (d := [0x27, 0xaa]) (c := [0x11]) (by decide)
      (.symbol (by decide) (.symbol (by decide) .nil)) (.symbol (by decide) .nil)
  have hbare : BareMessage receivingImpl env :=
    ⟨[0xb5, 0x05, 0x02, 0x27, 0xaa, 0x11], [.byte 0x00], m, rfl, hr, by decide, by decide, .inr rfl⟩
  exact not_messageChecked_of_bare rfl hbare (h receivingImpl env 0x10 0x04 rfl (by decide))

end EBusFsm
