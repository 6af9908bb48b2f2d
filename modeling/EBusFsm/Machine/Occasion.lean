import EBusFsm.Machine.Invariant
import EBusFsm.Machine.Stream

/-!
# When a participant writes

The bus is shared, so a byte may be written only when it is the participant's turn. `Occasion address` lists the
four occasions that the participant with this address has, with everything that is read and written on them: it
bids for the bus behind a synchronization byte, it carries an exchange of its own from the arbitration won to the
synchronization byte that frees the bus, it accepts or refuses a message that was directed to it, and it answers one,
with a telegram that is granted its life.

`wrote_on_occasion` says that every byte that a run ever writes is the next one of such an occasion, whatever
the other participants write, and wherever the device stops a handler. Nothing is asked of the run: `close` or a
device error may break an occasion off, but they never let a byte stand outside of one.

`Speech` says what a round may write, and `Begins` that it wrote a beginning of that; `Prefaced` says what the
log ends with when a state is entered.
-/

namespace EBusFsm

open Prog

/-! ### Occasions -/

/-- The responses to an own telegram: one that is accepted, behind one that was rejected or none, or two that are
rejected. -/
inductive Responses : List Event → Prop
  | accepted {evs : List Event} {raw : List Byte} {s : Slave} {stored : Sequence} (hevs : Retried evs)
      (hraw : Response raw) (ht : s.Text (reduceBytes raw) stored) (x : Byte) :
      Responses (evs ++ (raw.map .got ++ [.wrote seqAck, .got x]))
  | rejected {evs evs' : List Event} (h : Rejected evs) (h' : Rejected evs') : Responses (evs ++ evs')

/-- What is written and read from the arbitration won to the end of the exchange. -/
inductive Conversed (tel : Telegram) : List Event → Prop
  | broadcast {evs : List Event} (htype : tel.type = .BC)
      (hevs : Echoed (tel.master.seq.drop 1 ++ [tel.masterCRC]) evs) : Conversed tel evs
  /-- It ends with the acknowledge byte of a master, or with one that is not positive. -/
  | ended {evs : List Event} {last : Byte} (htype : tel.type ≠ .BC) (hevs : MessageSent tel evs last)
      (hlast : tel.type = .MM ∨ last ≠ seqAck) : Conversed tel evs
  | answered {evs evs' : List Event} (htype : tel.type = .MS) (hevs : MessageSent tel evs seqAck)
      (hreplies : Responses evs') : Conversed tel (evs ++ evs')

/-- The acknowledge byte for the bytes of a message, and its echo. What is refused is tested for the broadcast
address behind the escapes. -/
inductive Replied (raw : List Byte) : List Event → Prop
  | ack {m : Master} {stored : Sequence} (ht : m.Text (reduceBytes raw) stored) (htype : m.type ≠ .BC) (x : Byte) :
      Replied raw [.wrote seqAck, .got x]
  | nak (hno : ∀ (m : Master) (stored : Sequence), ¬ m.Text (reduceBytes raw) stored)
      (hbroad : (reduceBytes raw)[1]? ≠ some seqBroad) (x : Byte) : Replied raw [.wrote seqNak, .got x]

/-- The second byte, as it came over the bus, is an address of the participant, or that of all. -/
def Directed (address : Byte) (raw : List Byte) : Prop :=
  ∃ qq zz r, raw = qq :: zz :: r ∧ (zz = seqBroad ∨ zz = address ∨ zz = slaveAddress address)

/-- What the participant with this address reads and writes on an occasion to write. -/
inductive Occasion (address : Byte) : List Event → Prop
  | bid {pause : List Event} (hmaster : isMaster address = true) (hpause : ∀ e ∈ pause, e.onWire = false) (x : Byte) :
      Occasion address (.got seqSyn :: pause ++ [.wrote address, .got x])
  | exchange {message : Message} {request : List Byte} {evs : List Event}
      (hcarries : message.Carries address request) (hevs : Conversed message.telegram evs) (x : Byte) :
      Occasion address ([.wrote address, .got address] ++ evs ++ [.wrote seqSyn, .got x])
  | receive {raw : List Byte} {evs : List Event} (hraw : Framed raw) (hdirected : Directed address raw)
      (hevs : Replied raw evs) : Occasion address (raw.map .got ++ evs)
  | answer {raw l : List Byte} {m : Master} {stored storedSlave : Sequence} {s : Slave} {evs : List Event} {last : Byte}
      (hraw : Framed raw) (hdirected : Directed address raw) (ht : m.Text (reduceBytes raw) stored)
      (htype : m.type = .MS) (hs : s.Text l storedSlave) (hevs : PartSent (partBytes storedSlave s.crc) evs last)
      (x : Byte) :
      Occasion address (raw.map .got ++ [.wrote seqAck, .got x, .processed stored.seq] ++ evs)

/-- A byte that is written is the next one on an occasion. -/
def OnOccasion (address : Byte) (before : List Event) (e : Event) : Prop :=
  ∀ b, e = .wrote b → ∃ pre sent rest, before = pre ++ sent ∧ Occasion address (sent ++ .wrote b :: rest)

/-- Up to the last byte that is written, the events begin something that `S` has. -/
def Begins (S : List Event → Prop) (l : List Event) : Prop :=
  wroteBytes l = [] ∨ ∃ evs mute rest, l = evs ++ mute ∧ wroteBytes mute = [] ∧ S (evs ++ rest)

theorem Begins.append {S : List Event → Prop} {l mute : List Event} (h : Begins S l) (hmute : wroteBytes mute = []) :
    Begins S (l ++ mute) := by
  rcases h with hl | ⟨evs, mute', rest, rfl, hmute', hS⟩
  · exact .inl (by rw [wroteBytes_append, hl, hmute]; rfl)
  · refine .inr ⟨evs, mute' ++ mute, rest, List.append_assoc _ _ _, ?_, hS⟩
    rw [wroteBytes_append, hmute', hmute]
    rfl

theorem begins_of_prefix {S : List Event → Prop} {l : List Event} (rest : List Event) (h : S (l ++ rest)) :
    Begins S l :=
  .inr ⟨l, [], rest, (List.append_nil l).symm, rfl, h⟩

theorem begins_of {S : List Event → Prop} {l : List Event} (h : S l) : Begins S l :=
  begins_of_prefix [] (by rwa [List.append_nil])

theorem justified_mute {address : Byte} {log mute : List Event} (h : Justified (OnOccasion address) log)
    (hmute : wroteBytes mute = []) : Justified (OnOccasion address) (log ++ mute) := by
  refine h.append fun e he before b heq => ?_
  obtain rfl := heq
  have hb : b ∈ wroteBytes mute := List.mem_filterMap.2 ⟨_, he, rfl⟩
  rw [hmute] at hb
  exact absurd hb List.not_mem_nil

/-- What is written continues an occasion that the log ends with. -/
theorem justified_begins {address : Byte} {S : List Event → Prop} {log pre sent l : List Event}
    (h : Justified (OnOccasion address) log) (hlog : log = pre ++ sent) (hl : Begins S l)
    (hS : ∀ evs, S evs → ∃ rest, Occasion address (sent ++ evs ++ rest)) :
    Justified (OnOccasion address) (log ++ l) := by
  rcases hl with hmute | ⟨evs, mute, rest, rfl, hmute, hevs⟩
  · exact justified_mute h hmute
  obtain ⟨rest', hoccasion⟩ := hS _ hevs
  suffices hall : ∀ done todo, evs = done ++ todo → Justified (OnOccasion address) (log ++ done) by
    rw [← List.append_assoc]
    exact justified_mute (hall evs [] (List.append_nil evs).symm) hmute
  intro done
  induction done using List.reverseRecOn with
  | nil =>
    intro _ _
    rw [List.append_nil]
    exact h
  | append_singleton done e ih =>
    intro todo hdone
    rw [← List.append_assoc]
    refine (ih (e :: todo) (by rw [hdone, List.append_assoc]; rfl)).snoc fun b heq => ?_
    obtain rfl := heq
    refine ⟨pre, sent ++ done, todo ++ rest ++ rest', by rw [hlog, List.append_assoc], ?_⟩
    rw [hdone] at hoccasion
    simpa using hoccasion

/-! ### Parts that the device stops -/

theorem exists_echoed (l : List Byte) : ∃ evs, Echoed l evs := by
  induction l with
  | nil => exact ⟨[], .nil⟩
  | cons b l ih =>
    obtain ⟨evs, h⟩ := ih
    exact ⟨_, .cons b 0 h⟩

/-- A part that is stopped was written up to there. -/
theorem wp_sendPart_begun (part : List Byte) (crc : Byte) (w : World) :
    wp (sendPart part crc) (fun _ _ => True)
      (fun _ w' => ∃ evs rest, w'.events = w.events ++ evs ∧ Echoed (part ++ [crc]) (evs ++ rest)) w := by
  rw [sendPart, wp_bind]
  let I : List Byte → World → Prop := fun todo w' =>
    ∃ done evs, part = done ++ todo ∧ Echoed done evs ∧ w'.events = w.events ++ evs
  have hstopped : ∀ (b : Byte) (todo done : List Byte) (evs evs' : List Event) (w₁ w₂ : World), Echoed done evs →
      w₁.events = w.events ++ evs → w₂.events = w₁.events ++ evs' → evs' = [] ∨ evs' = [.wrote b] →
      part ++ [crc] = done ++ b :: todo →
      ∃ evs rest, w₂.events = w.events ++ evs ∧ Echoed (part ++ [crc]) (evs ++ rest) := by
    intro b todo done evs evs' w₁ w₂ hdone h₁ h₂ hevs' hpart
    obtain ⟨echo, hecho⟩ := exists_echoed todo
    have hfull : Echoed (part ++ [crc]) (evs ++ .wrote b :: .got 0 :: echo) := by
      rw [hpart]
      exact hdone.append (.cons b 0 hecho)
    rw [h₁] at h₂
    rcases hevs' with rfl | rfl
    · exact ⟨evs, _, by rw [h₂, List.append_nil], hfull⟩
    · refine ⟨evs ++ [.wrote b], .got 0 :: echo, by rw [h₂, List.append_assoc], ?_⟩
      rw [List.append_assoc]
      exact hfull
  have hloop : wp (part.forM fun byte => writeRead byte 0 0) (fun _ w' => I [] w')
      (fun _ w' => ∃ evs rest, w'.events = w.events ++ evs ∧ Echoed (part ++ [crc]) (evs ++ rest)) w := by
    refine wp_forM part _ I _ (fun b todo w₁ h => ?_) w ⟨[], [], rfl, .nil, (List.append_nil _).symm⟩
    obtain ⟨done, evs, hpart, hdone, h₁⟩ := h
    refine wp_writeRead b _ _ w₁ (fun x w₂ h₂ _ => ?_) fun e w₂ evs' h₂ hevs' => ?_
    · refine ⟨done ++ [b], evs ++ [.wrote b, .got x], by simp [hpart], hdone.append (.cons b x .nil), ?_⟩
      rw [h₂.events, h₁, List.append_assoc]
    · refine hstopped b (todo ++ [crc]) done evs evs' w₁ w₂ hdone h₁ h₂.events (hevs'.imp And.left And.left) ?_
      rw [hpart, List.append_assoc, List.cons_append]
  refine wp_mono hloop (fun _ w₁ h => ?_) fun _ _ h => h
  obtain ⟨done, evs, hpart, hdone, h₁⟩ := h
  refine wp_writeRead crc _ _ w₁ (fun _ _ _ _ => trivial) fun e w₂ evs' h₂ hevs' => ?_
  refine hstopped crc [] done evs evs' w₁ w₂ hdone h₁ h₂.events (hevs'.imp And.left And.left) ?_
  rw [hpart, List.append_nil]

theorem wp_sendAttempt_begun (retry : Nat) (w : World) {message : Message}
    (hmessage : w.impl.activeMessage = some message) :
    wp (sendAttempt retry) (fun _ _ => True) (fun _ w' => ∃ evs rest, w'.events = w.events ++ evs ∧
      Echoed (message.telegram.master.seq.drop retry ++ [message.telegram.masterCRC]) (evs ++ rest)) w := by
  have hpart := wp_sendPart_begun (message.telegram.master.seq.drop retry) message.telegram.masterCRC w
  simp only [sendAttempt, wp_bind, wp_getImpl, hmessage, wp_deref_some]
  refine wp_mono (wp_and hpart (wp_sendPart _ _ _ (fun _ _ => True) w (fun evs w₁ he h₁ _ => ?_)
    fun _ _ _ _ => trivial)) (fun _ _ h => h.2) fun _ _ h => h.1
  by_cases hbc : message.telegram.type = .BC
  · simp only [hbc, if_true, wp_pure]
  simp only [hbc, if_false, wp_bind]
  refine wp_read 0 10000 _ _ w₁ (fun ack reads _ => ?_) fun e w' h => ?_
  · simp only [wp_setActive]
    split_ifs <;> simp only [wp_bind, wp_setActive, wp_pure]
  · refine ⟨evs, [], ?_, by rwa [List.append_nil]⟩
    rw [h.events, h₁.events, List.append_nil]

/-- An own telegram, up to the acknowledge byte that counts. -/
def Uttered (tel : Telegram) (evs : List Event) : Prop :=
  tel.type = .BC ∧ Echoed (tel.master.seq.drop 1 ++ [tel.masterCRC]) evs ∨
    tel.type ≠ .BC ∧ ∃ last, MessageSent tel evs last

theorem wp_sendMessage_begun (w : World) {message : Message} (hmessage : w.impl.activeMessage = some message) :
    wp sendMessage (fun _ _ => True)
      (fun _ w' => ∃ evs rest, w'.events = w.events ++ evs ∧ Uttered message.telegram (evs ++ rest)) w := by
  rw [sendMessage, wp_bind]
  have hfirst := wp_sendAttempt 1 (fun state w' => state = none → message.telegram.type ≠ .BC ∧ ∃ evs,
      Echoed (message.telegram.master.seq.drop 1 ++ [message.telegram.masterCRC]) evs ∧
      w'.events = w.events ++ (evs ++ [.got seqNak]) ∧
      w'.impl.activeMessage = some { message with telegram := message.telegram.setSlaveACK seqNak })
    (fun _ _ => True) w hmessage (fun _ _ _ _ _ _ => by simp)
    (fun hbc evs ack w' state he h hi => ⟨fun _ _ => by simp, fun _ _ _ => by simp, ?_⟩) fun _ _ _ _ => trivial
  swap
  · rintro rfl rfl -
    exact ⟨hbc, evs, he, h.events, by rw [hi]; rfl⟩
  refine wp_mono (wp_and hfirst (wp_sendAttempt_begun 1 w hmessage)) (fun state w₁ h => ?_) fun e w' h => ?_
  · rcases state with _ | state
    swap
    · simp only [wp_pure]
    obtain ⟨hbc, evs, he, h₁, hm₁⟩ := h.1 rfl
    simp only [wp_bind]
    refine wp_mono (wp_sendAttempt_begun 0 w₁ hm₁) (fun state _ _ => ?_) fun e w' h => ?_
    · cases state <;> simp only [wp_pure]
    · obtain ⟨evs', rest, hevs', hecho⟩ := h
      refine ⟨evs ++ [.got seqNak] ++ evs', rest ++ [.got seqAck], ?_, .inr ⟨hbc, seqAck, ?_⟩⟩
      · rw [hevs', h₁, List.append_assoc]
      · have hagain : MessageSent message.telegram _ seqAck := .again he hecho
        simpa using hagain
  · obtain ⟨evs, rest, hevs, hecho⟩ := h.2
    by_cases hbc : message.telegram.type = .BC
    · exact ⟨evs, rest, hevs, .inl ⟨hbc, hecho⟩⟩
    · refine ⟨evs, rest ++ [.got seqAck], hevs, .inr ⟨hbc, seqAck, ?_⟩⟩
      rw [← List.append_assoc]
      exact .once hecho (by decide)

theorem wp_sendResponse_begun (w : World) {message : Message} (hmessage : w.impl.passiveMessage = some message) :
    wp sendResponse (fun _ _ => True) (fun _ w' => ∃ evs rest last, w'.events = w.events ++ evs ∧
      PartSent (partBytes message.telegram.slave message.telegram.slaveCRC) (evs ++ rest) last) w := by
  simp only [sendResponse, wp_bind, wp_getImpl, hmessage, wp_deref_some]
  have hdone : ∀ last w', wp (finishResponse message last) (fun _ _ => True)
      (fun _ w' => ∃ evs rest last, w'.events = w.events ++ evs ∧
        PartSent (partBytes message.telegram.slave message.telegram.slaveCRC) (evs ++ rest) last) w' := by
    intro last w'
    simp only [finishResponse, wp_bind, wp_modifyImpl, publish, wp_emit, wp_reset, wp_pure]
  have hpart := wp_sendPart_begun message.telegram.slave.seq message.telegram.slaveCRC
  have hsent := fun w => wp_sendPart message.telegram.slave.seq message.telegram.slaveCRC
    (fun _ w' => ∃ evs, Echoed (partBytes message.telegram.slave message.telegram.slaveCRC) evs ∧
      w'.events = w.events ++ evs) (fun _ _ => True) w (fun evs w' he h _ => ⟨evs, he, h.events⟩) fun _ _ _ _ => trivial
  refine wp_mono (wp_and (hpart w) (hsent w)) (fun _ w₁ h => ?_) fun _ w' h => ?_
  swap
  · obtain ⟨evs, rest, hevs, hecho⟩ := h.1
    refine ⟨evs, rest ++ [.got seqAck], seqAck, hevs, ?_⟩
    rw [← List.append_assoc]
    exact .once hecho (by decide)
  obtain ⟨evs, hecho, h₁⟩ := h.2
  refine wp_read 0 10000 _ _ w₁ (fun first reads _ => ?_) fun e w' h => ?_
  swap
  · refine ⟨evs, [.got seqAck], seqAck, ?_, .once hecho (by decide)⟩
    rw [h.events, h₁, List.append_nil]
  by_cases hnak : first = seqNak
  swap
  · simp only [hnak, if_false]
    exact hdone _ _
  simp only [hnak, if_true, wp_bind]
  have h₂ : (w₁.got seqNak).events = w.events ++ (evs ++ [.got seqNak]) := by
    rw [World.got, h₁, List.append_assoc]
  refine wp_mono (wp_and (hpart _) (hsent _)) (fun _ w₃ h => ?_) fun _ w' h => ?_
  swap
  · obtain ⟨evs', rest, hevs', hecho'⟩ := h.1
    refine ⟨evs ++ [.got seqNak] ++ evs', rest ++ [.got seqAck], seqAck, ?_, ?_⟩
    · rw [hevs', h₂, List.append_assoc]
    · have hagain : PartSent _ _ seqAck := .again hecho hecho'
      simpa using hagain
  obtain ⟨evs', hecho', h₃⟩ := h.2
  refine wp_read 0 10000 _ _ w₃ (fun last reads _ => hdone _ _) fun e w' h => ?_
  refine ⟨evs ++ [.got seqNak] ++ evs', [.got seqAck], seqAck, ?_, ?_⟩
  · rw [h.events, h₃, h₂, List.append_nil, List.append_assoc]
  · have hagain : PartSent _ _ seqAck := .again hecho hecho'
    simpa using hagain

theorem wp_deliverMessage_mute (tel : Telegram) (w : World) (E : Stop → World → Prop) :
    wp (deliverMessage tel) (fun _ w' => ∃ mute, w'.events = w.events ++ mute ∧ wroteBytes mute = []) E w := by
  unfold deliverMessage
  by_cases hstate : tel.masterState = SEQ_OK
  · rw [if_pos hstate]
    by_cases htype : tel.type = .MS
    · simp only [htype, ne_eq, not_true_eq_false, if_false, wp_pure]
      exact ⟨[], (List.append_nil _).symm, rfl⟩
    · simp only [htype, ne_eq, not_false_eq_true, if_true, publish, wp_bind, wp_emit, wp_pure]
      exact ⟨_, rfl, rfl⟩
  · rw [if_neg hstate]
    simp only [wp_bind, wp_setSequence, wp_pure]
    exact ⟨[], (List.append_nil _).symm, rfl⟩

/-- However `acknowledgeMessage` ends, it writes at most the acknowledge byte for its message. -/
theorem wp_acknowledgeMessage_begun (w : World) {raw : List Byte} (hseq : w.impl.sequence = ⟨raw, true⟩) :
    wp acknowledgeMessage (fun _ w' => ∃ l, w'.events = w.events ++ l ∧ Begins (Replied raw) l)
      (fun _ w' => ∃ l, w'.events = w.events ++ l ∧ Begins (Replied raw) l) w := by
  have hmute : ∀ (tel : Telegram) (w₁ : World) (l : List Event), w₁.events = w.events ++ l → Begins (Replied raw) l →
      wp (deliverMessage tel) (fun _ w' => ∃ l, w'.events = w.events ++ l ∧ Begins (Replied raw) l)
        (fun _ w' => ∃ l, w'.events = w.events ++ l ∧ Begins (Replied raw) l) w₁ := by
    intro tel w₁ l h₁ hl
    refine wp_mono (wp_deliverMessage_mute tel w₁ _) (fun _ w' h => ?_) fun _ _ h => h
    obtain ⟨mute, h', hm⟩ := h
    exact ⟨l ++ mute, by rw [h', h₁, List.append_assoc], hl.append hm⟩
  have hreply : ∀ (tel : Telegram) (b : Byte) (w₁ : World), w₁.events = w.events →
      (∀ x, Replied raw [.wrote b, .got x]) →
      wp (writeRead b 0 0 >>= fun _ => deliverMessage tel)
        (fun _ w' => ∃ l, w'.events = w.events ++ l ∧ Begins (Replied raw) l)
        (fun _ w' => ∃ l, w'.events = w.events ++ l ∧ Begins (Replied raw) l) w₁ := by
    intro tel b w₁ h₁ hb
    rw [wp_bind]
    refine wp_writeRead b _ _ w₁ (fun x w₂ h₂ _ => ?_) fun e w₂ evs h₂ hevs => ?_
    · exact hmute tel w₂ [.wrote b, .got x] (by rw [h₂.events, h₁]) (begins_of (hb x))
    · refine ⟨evs, by rw [h₂.events, h₁], ?_⟩
      rcases hevs with ⟨rfl, -⟩ | ⟨rfl, -⟩
      · exact .inl rfl
      · exact begins_of_prefix [.got 0] (hb 0)
  have hcreate := Telegram.createMaster_reduce {} ⟨raw, true⟩
  rw [Sequence.reduce_extended] at hcreate
  simp only [acknowledgeMessage, wp_bind, wp_getImpl, hseq, hcreate]
  rcases Telegram.createMaster_spec {} (reduceBytes raw) with
    ⟨m, stored, seq, ht, hrun, -, hat⟩ | ⟨_, _, _, _, e, he, hno, hrun⟩
  · simp only [hrun, wp_liftRange_ok, wp_setSequence, hat]
    by_cases hbc : m.zz = seqBroad
    · simp only [hbc, ne_eq, not_true_eq_false, if_false]
      exact hmute _ _ [] (List.append_nil _).symm (.inl rfl)
    · simp only [hbc, ne_eq, not_false_eq_true, if_true, Telegram.withMaster]
      exact hreply _ seqAck _ rfl fun x => .ack ht (fun h => hbc (m.type_eq_BC.1 h)) x
  · obtain ⟨tel, he, hrun⟩ : ∃ tel : Telegram, tel.masterState ≠ SEQ_OK ∧
        ({} : Telegram).createMaster ⟨reduceBytes raw, false⟩ = .ok (tel, ⟨reduceBytes raw, false⟩) :=
      ⟨_, he, hrun⟩
    simp only [hrun, wp_liftRange_ok, wp_setSequence]
    rcases hb : Sequence.byteAt ⟨reduceBytes raw, false⟩ 1 with e | b
    · exact ⟨[], (List.append_nil _).symm, .inl rfl⟩
    simp only [wp_liftRange_ok]
    by_cases hbc : b = seqBroad
    · simp only [hbc, ne_eq, not_true_eq_false, if_false]
      exact hmute _ _ [] (List.append_nil _).symm (.inl rfl)
    · have hbroad : (reduceBytes raw)[1]? ≠ some seqBroad := by
        intro hat
        rw [Sequence.byteAt_mk _ _ _ _ hat] at hb
        exact hbc (Except.ok.inj hb).symm
      simp only [hbc, ne_eq, not_false_eq_true, if_true, he, if_false]
      exact hreply _ seqNak _ rfl fun x => .nak hno hbroad x

/-- However `receiveMessage` ends, it writes at most the acknowledge byte for a whole message. -/
theorem wp_receiveMessage_begun (w : World) {qq zz : Byte} (hseq : w.impl.sequence = ⟨[qq, zz], true⟩) :
    wp receiveMessage
      (fun _ w' => ∃ l, w'.events = w.events ++ l ∧ Begins (fun evs => ∃ r acked, evs = r.map .got ++ acked ∧
        Framed (qq :: zz :: r) ∧ Replied (qq :: zz :: r) acked) l)
      (fun _ w' => ∃ l, w'.events = w.events ++ l ∧ Begins (fun evs => ∃ r acked, evs = r.map .got ++ acked ∧
        Framed (qq :: zz :: r) ∧ Replied (qq :: zz :: r) acked) l) w := by
  rw [receiveMessage, wp_bind]
  refine wp_receiveByte _ _ w (fun pb w₁ h₁ hi₁ => ?_) fun e w' h => ⟨[], h.events, .inl rfl⟩
  rw [wp_bind]
  refine wp_receiveByte _ _ w₁ (fun sb w₂ h₂ hi₂ => ?_) fun e w' h => ⟨_, (h₁.starve h).events, .inl rfl⟩
  have h₁₂ := h₁.trans h₂
  rw [wp_bind]
  refine wp_receiveByte _ _ w₂ (fun nn w₃ h₃ hi₃ => ?_) fun e w' h => ⟨_, (h₁₂.starve h).events, .inl rfl⟩
  have h₁₃ : Adv w w₃ [.got pb, .got sb, .got nn] := h₁₂.trans h₃
  have hi : w₃.impl = { w.impl with sequence := ⟨[qq, zz, pb, sb, nn], true⟩ } := by
    rw [hi₃, hi₂, hi₁, hseq]
    rfl
  have hat : Sequence.byteAt ⟨[qq, zz, pb, sb, nn], true⟩ 4 = .ok nn := rfl
  simp only [wp_bind, wp_getImpl, hi, hat, wp_liftRange_ok]
  by_cases hnn : nn.toNat > seqMaxBytes
  · simp only [hnn, if_true, wp_bind]
    refine wp_setActiveState _ _ _ w₃ (fun message hm => ?_) fun hm => ⟨_, h₁₃.events, .inl rfl⟩
    simp only [wp_reset, wp_pure]
    refine ⟨[.got pb, .got sb, .got nn] ++ finish { message with state := EBUS_ERR_TRANSMIT }, ?_, .inl rfl⟩
    rw [← List.append_assoc, ← h₁₃.events]
    rfl
  simp only [hnn, if_false, receiveCounted, wp_bind, wp_get]
  refine wp_receiveBytes _ _ _ _ w₃ _ (by rw [hi]) (Nat.lt_succ_self _) (fun d w₄ hd h₄ hi₄ => ?_)
    fun e w' r h hr => ⟨_, (h₁₃.starve h).events, .inl (by simp)⟩
  have h₁₄ := h₁₃.trans h₄
  refine wp_receiveBytes _ _ _ _ w₄ _ (by rw [hi₄]) (Nat.lt_succ_self _) (fun c w₅ hc h₅ hi₅ => ?_)
    fun e w' r h hr => ⟨_, (h₁₄.starve h).events, .inl (by simp)⟩
  have hframed : Framed (qq :: zz :: pb :: sb :: nn :: (d ++ c)) :=
    .intro qq zz pb sb nn (Nat.le_of_not_lt hnn) hd hc
  have h₁₅ : Adv w w₅ ((pb :: sb :: nn :: (d ++ c)).map .got) := by
    have h := h₁₄.trans h₅
    rw [List.map_cons, List.map_cons, List.map_cons, List.map_append]
    exact h
  have hseq₅ : w₅.impl.sequence = ⟨qq :: zz :: pb :: sb :: nn :: (d ++ c), true⟩ := by
    rw [hi₅]
    simp
  have hbegun : ∀ w' : World, (∃ l, w'.events = w₅.events ++ l ∧
      Begins (Replied (qq :: zz :: pb :: sb :: nn :: (d ++ c))) l) →
      ∃ l, w'.events = w.events ++ l ∧ Begins (fun evs => ∃ r acked, evs = r.map .got ++ acked ∧
        Framed (qq :: zz :: r) ∧ Replied (qq :: zz :: r) acked) l := by
    rintro w' ⟨l, hl, hbegins⟩
    refine ⟨_, by rw [hl, h₁₅.events, List.append_assoc], ?_⟩
    rcases hbegins with hmute | ⟨evs, mute, rest, rfl, hmute, hreplied⟩
    · exact .inl (by rw [wroteBytes_append, wroteBytes_map_got, hmute]; rfl)
    · refine .inr ⟨_, mute, rest, (List.append_assoc _ evs mute).symm, hmute, _, _, List.append_assoc _ _ _, hframed,
        hreplied⟩
  exact wp_mono (wp_acknowledgeMessage_begun w₅ hseq₅) (fun _ w' h => hbegun w' h) fun _ w' h => hbegun w' h

theorem wp_lockBus_begun (w : World) {message : Message} (hmessage : w.impl.activeMessage = some message) {qq : Byte}
    {rest : List Byte} (hqq : message.telegram.master.seq = qq :: rest) :
    wp lockBus (fun _ w' => ∃ x, w'.events = w.events ++ [.wrote qq, .got x])
      (fun _ w' => w'.events = w.events ∨ w'.events = w.events ++ [.wrote qq]) w := by
  have hat := Telegram.getMasterQQ_eq hqq
  simp only [lockBus, wp_bind, wp_getImpl, hmessage, wp_deref_some, hat, wp_liftRange_ok]
  refine wp_write qq _ _ w (fun hs => ?_) fun e w' _ h => .inl (h.events.trans (List.append_nil _))
  refine wp_read 0 10000 _ _ _ (fun b reads hr => ?_) fun e w' h => .inr (h.events.trans (List.append_nil _))
  have hgot : ((w.wrote qq).got b).events = w.events ++ [.wrote qq, .got b] := by
    simp [World.got, World.wrote]
  by_cases hb : b = qq
  · simp only [hb, ne_eq, not_true_eq_false, if_false, wp_pure]
    rw [← hb]
    exact ⟨b, by rw [hb] at hgot ⊢; exact hgot⟩
  · simp only [hb, ne_eq, not_false_eq_true, if_true, wp_bind, wp_ite, wp_modifyImpl, wp_pure]
    exact ⟨fun _ => ⟨b, hgot⟩, fun _ => ⟨b, hgot⟩⟩

/-- What was rejected may be rejected once more. -/
theorem Retried.begins {evs mute : List Event} (h : Retried evs) (hmute : wroteBytes mute = []) :
    Begins Responses (evs ++ mute) := by
  rcases h with rfl | hrejected
  · exact .inl hmute
  · exact .inr ⟨evs, mute, evs, rfl, hmute, .rejected hrejected hrejected⟩

theorem ResponseStopped.begins {evs evs' : List Event} {raw : List Byte} {sends : List SendResult} (h : Retried evs)
    (hraw : Response raw) (hstopped : ResponseStopped (reduceBytes raw) sends evs') :
    Begins Responses (evs ++ (raw.map .got ++ evs')) := by
  cases hstopped with
  | refused =>
    rw [List.append_nil]
    exact h.begins (wroteBytes_map_got raw)
  | ack ht =>
    refine begins_of_prefix [.got 0] ?_
    simpa using Responses.accepted h hraw ht 0
  | nak hno =>
    have hrejected : Rejected (raw.map .got ++ [.wrote seqNak, .got 0]) := .intro hraw hno 0
    rcases h with rfl | h
    · refine begins_of_prefix (.got 0 :: (raw.map .got ++ [.wrote seqNak, .got 0])) ?_
      simpa using Responses.rejected hrejected hrejected
    · refine begins_of_prefix [.got 0] ?_
      simpa using Responses.rejected h hrejected

/-- However `receiveResponse` ends, it writes at most the acknowledge bytes for whole responses, and it goes on to
`freeBus` behind the last one. -/
theorem wp_receiveResponse_begun (w : World) {message : Message} (hmessage : w.impl.activeMessage = some message) :
    wp receiveResponse
      (fun next w' => ∃ l, w'.events = w.events ++ l ∧ Begins Responses l ∧ (next = .freeBus → Responses l))
      (fun _ w' => ∃ l, w'.events = w.events ++ l ∧ Begins Responses l) w := by
  refine wp_receiveResponse _ _ w hmessage ?_ ?_ ?_ ?_
  · intro evs nn message' w₁ w' hevs h₁ _ h' _ _ hi
    refine ⟨evs ++ ([.got nn] ++ resetEvents w'.impl.activeMessage), ?_, hevs.begins ?_, by simp⟩
    · show w'.events ++ _ = _
      rw [h'.events, h₁.events, List.append_assoc, List.append_assoc]
    · rw [hi]
      rfl
  · intro evs raw s stored x w₁ w' hevs h₁ hraw ht h' _
    have hreplies := Responses.accepted hevs hraw ht x
    exact ⟨_, by rw [h'.events, h₁.events, List.append_assoc], begins_of hreplies, fun _ => hreplies⟩
  · intro evs evs' message' w₁ w' hevs h₁ hevs' h' _ _ _
    have hreplies := Responses.rejected hevs hevs'
    exact ⟨_, by rw [h'.events, h₁.events, List.append_assoc], begins_of hreplies, fun _ => hreplies⟩
  · intro e w₁ w' evs evs' h₁ h' hevs hstopped
    refine ⟨evs ++ evs', by rw [h'.events, h₁.events, List.append_assoc], ?_⟩
    cases hstopped with
    | reading r => exact hevs.begins (wroteBytes_map_got r)
    | acking hraw _ hstopped => exact hstopped.begins hevs hraw

/-! ### Rounds -/

/-- What a round may write. -/
def Speech (impl : EbusImpl) : State → List Event → Prop
  | .receiveMessage, evs => ∃ qq zz r acked, impl.sequence = ⟨[qq, zz], true⟩ ∧ evs = r.map .got ++ acked ∧
      Framed (qq :: zz :: r) ∧ Replied (qq :: zz :: r) acked
  | .sendResponse, evs => ∃ message last, impl.passiveMessage = some message ∧
      PartSent (partBytes message.telegram.slave message.telegram.slaveCRC) evs last
  | .lockBus, evs => ∃ message qq rest x, impl.activeMessage = some message ∧
      message.telegram.master.seq = qq :: rest ∧ evs = [.wrote qq, .got x]
  | .sendMessage, evs => ∃ message, impl.activeMessage = some message ∧ Uttered message.telegram evs
  | .receiveResponse, evs => Responses evs
  | .freeBus, evs => ∃ x, evs = [.wrote seqSyn, .got x]
  | _, _ => False

section Round

variable {impl : EbusImpl} {env : Env} {state : State}

theorem Begins.mono {S S' : List Event → Prop} {l : List Event} (h : Begins S l) (hS : ∀ evs, S evs → S' evs) :
    Begins S' l := by
  rcases h with h | ⟨evs, mute, rest, hl, hmute, hevs⟩
  · exact .inl h
  · exact .inr ⟨evs, mute, rest, hl, hmute, hS _ hevs⟩

/-- However a handler ends, what it wrote begins what it may write. -/
theorem handler_begun (hready : Ready impl state) :
    wp (handler state) (fun _ w => Begins (Speech impl state) w.events) (fun _ w => Begins (Speech impl state) w.events)
      { impl, env } := by
  cases state with
  | idleSystem =>
    refine wp_idleSystem _ _ _ (fun _ => .inl ?_) fun _ => .inl ?_
    all_goals exact wroteBytes_resetEvents impl.activeMessage
  | openDevice =>
    refine wp_openDevice _ _ _ (fun l w _ h _ => .inl ?_) (fun _ _ => .inl rfl) fun e w l h => .inl ?_
    · simp [World.reset, h.events, wroteBytes_resetEvents]
    · simp [h.events]
  | monitorBus =>
    refine wp_monitorBus _ _ _ (fun b w _ _ h _ => .inl ?_) (fun qq zz w _ h _ _ _ => .inl ?_) (fun w h _ => ?_)
      fun e w h => .inl ?_
    · simp [h.events]
    · simp [h.events]
    · refine wp_handleSyn _ _ _ fun active queue evs seq _ _ hevs _ => .inl ?_
      cases hevs <;> simp [h.events, wroteBytes]
    · simp [h.events]
  | receiveMessage =>
    obtain ⟨qq, zz, hseq, -⟩ := hready
    have hspeech : ∀ w : World, (∃ l, w.events = [] ++ l ∧ Begins (fun evs => ∃ r acked, evs = r.map .got ++ acked ∧
        Framed (qq :: zz :: r) ∧ Replied (qq :: zz :: r) acked) l) → Begins (Speech impl .receiveMessage) w.events := by
      rintro w ⟨l, hl, hbegins⟩
      rw [hl]
      refine hbegins.mono fun evs hevs => ?_
      obtain ⟨r, acked, rfl, hr, hacked⟩ := hevs
      exact ⟨qq, zz, r, acked, hseq, rfl, hr, hacked⟩
    exact wp_mono (wp_receiveMessage_begun _ hseq) (fun _ w h => hspeech w h) fun _ w h => hspeech w h
  | processMessage =>
    obtain ⟨m, stored, ht⟩ := hready
    have hmute : wroteBytes (processEvents impl stored) = [] := by
      unfold processEvents
      split_ifs <;> rfl
    exact wp_processMessage _ _ _ ht (fun _ _ _ _ _ _ _ => .inl hmute) (.inl hmute)
  | sendResponse =>
    obtain ⟨message, hmessage⟩ := hready
    refine wp_mono (wp_and (wp_sendResponse_begun { impl, env } hmessage) (wp_sendResponse
      (fun _ w => ∃ evs mute last, w.events = evs ++ mute ∧ wroteBytes mute = [] ∧
        PartSent (partBytes message.telegram.slave message.telegram.slaveCRC) evs last) (fun _ _ => True) _ hmessage
      (fun evs last w hevs h _ => ?_) fun _ _ _ _ => trivial)) (fun _ w h => ?_) fun _ w h => ?_
    · refine ⟨evs, .published message.telegram.master.seq message.telegram.slave.seq ::
        resetEvents w.impl.activeMessage, last, ?_, ?_, hevs⟩
      · simp [World.reset, h.events]
      · exact wroteBytes_resetEvents w.impl.activeMessage
    · obtain ⟨evs, mute, last, hw, hmute, hevs⟩ := h.2
      rw [hw]
      exact (begins_of ⟨message, last, hmessage, hevs⟩ : Begins (Speech impl .sendResponse) evs).append hmute
    · obtain ⟨evs, rest, last, hw, hevs⟩ := h.1
      rw [hw]
      exact begins_of_prefix rest ⟨message, last, hmessage, hevs⟩
  | lockBus =>
    obtain ⟨message, qq, rest, hmessage, hqq⟩ := hready
    have hbid : ∀ x, Speech impl .lockBus [.wrote qq, .got x] := fun x => ⟨message, qq, rest, x, hmessage, hqq, rfl⟩
    refine wp_mono (wp_lockBus_begun { impl, env } hmessage hqq) (fun _ w h => ?_) fun _ w h => ?_
    · obtain ⟨x, hw⟩ := h
      rw [hw]
      exact begins_of (hbid x)
    · rcases h with hw | hw
      · exact .inl (by rw [hw]; rfl)
      · rw [hw]
        exact begins_of_prefix [.got 0] (hbid 0)
  | sendMessage =>
    obtain ⟨message, hmessage⟩ := hready
    refine wp_mono (wp_and (wp_sendMessage_begun { impl, env } hmessage) (wp_sendMessage
      (fun _ w => Uttered message.telegram w.events) (fun _ _ => True) _ hmessage ?_ ?_ ?_ fun _ _ _ _ => trivial))
      (fun _ w h => begins_of ⟨message, hmessage, h.2⟩) fun _ w h => ?_
    · intro hbc evs w hevs h _
      exact .inl ⟨hbc, by rw [h.events]; exact hevs⟩
    · intro hbc evs w hevs h _
      exact .inr ⟨hbc, seqAck, by rw [h.events]; exact hevs⟩
    · intro hbc evs last w _ hevs h _
      exact .inr ⟨hbc, last, by rw [h.events]; exact hevs⟩
    · obtain ⟨evs, rest, hw, hevs⟩ := h.1
      rw [hw]
      exact begins_of_prefix rest ⟨message, hmessage, hevs⟩
  | receiveResponse =>
    obtain ⟨message, hmessage⟩ := hready
    refine wp_mono (wp_receiveResponse_begun { impl, env } hmessage) (fun _ w h => ?_) fun _ w h => ?_
    · obtain ⟨l, hw, hbegins, -⟩ := h
      rw [hw]
      exact hbegins
    · obtain ⟨l, hw, hbegins⟩ := h
      rw [hw]
      exact hbegins
  | freeBus =>
    have hfree : ∀ x, Speech impl .freeBus [.wrote seqSyn, .got x] := fun x => ⟨x, rfl⟩
    refine wp_freeBus _ _ _ (fun x w h _ => ?_) fun e w evs h hevs _ => ?_
    · rw [World.reset, h.events]
      exact (begins_of (hfree x)).append (wroteBytes_resetEvents w.impl.activeMessage)
    · rw [h.events]
      rcases hevs with rfl | rfl
      · exact .inl rfl
      · exact begins_of_prefix [.got 0] (hfree 0)

/-- `handleDeviceError` writes nothing. -/
theorem begun (hready : Ready impl state) :
    wp (runState state) (fun _ w => Begins (Speech impl state) w.events)
      (fun _ w => Begins (Speech impl state) w.events) { impl, env } := by
  unfold runState
  rw [wp_tryCatch]
  refine wp_mono (handler_begun hready) (fun _ _ h => h) fun e w h => ?_
  cases e with
  | warning | error =>
    rw [wp_handleDeviceError]
    exact h.append (wroteBytes_resetEvents _)
  | _ => exact h

end Round

/-! ### What the log ends with -/

/-- The log ends with a message to this participant that was accepted. -/
def Taken (address : Byte) (m : Master) (stored : Sequence) (log : List Event) : Prop :=
  ∃ pre raw x, log = pre ++ (raw.map .got ++ [.wrote seqAck, .got x]) ∧ Framed raw ∧ Directed address raw ∧
    m.Text (reduceBytes raw) stored

/-- What the log ends with when a state is entered. -/
def Prefaced (address : Byte) (impl : EbusImpl) (log : List Event) : State → Prop
  | .monitorBus => ∃ pre, log = pre ++ impl.sequence.seq.map .got
  | .receiveMessage => ∃ pre qq zz, impl.sequence = ⟨[qq, zz], true⟩ ∧ log = pre ++ [.got qq, .got zz]
  | .processMessage => ∀ (m : Master) (stored : Sequence), m.Text impl.sequence.reduce.seq stored → m.type = .MS →
      Taken address m stored log
  | .sendResponse => ∃ message log' m stored s l, impl.passiveMessage = some message ∧
      log = log' ++ [.processed (Sequence.seq stored)] ∧ Taken address m stored log' ∧ m.type = .MS ∧
      Slave.Text s l message.telegram.slave ∧ message.telegram.slaveCRC = s.crc
  | .lockBus => impl.sequence.seq = [] ∧ ∃ pre pause, log = pre ++ (.got seqSyn :: pause) ∧
      ∀ e ∈ pause, e.onWire = false
  | .sendMessage => ∃ pre, log = pre ++ [.wrote address, .got address]
  | .receiveResponse => ∃ pre message request evs, Message.Carries message address request ∧
      message.telegram.type = .MS ∧ MessageSent message.telegram evs seqAck ∧
      log = pre ++ ([.wrote address, .got address] ++ evs)
  | .freeBus => ∃ pre message request evs, Message.Carries message address request ∧
      Conversed message.telegram evs ∧ log = pre ++ ([.wrote address, .got address] ++ evs)
  | _ => True

section Log

variable {address : Byte} {impl impl' : EbusImpl} {env : Env} {state : State} {result : Except Stop State}
  {evs log : List Event}

theorem Message.Carries.master {message : Message} {request rest : List Byte} {qq : Byte}
    (h : message.Carries address request) (hqq : message.telegram.master.seq = qq :: rest) :
    qq = address ∧ isMaster address = true := by
  obtain ⟨m, ht, -, -⟩ := h
  obtain ⟨rest', hseq⟩ := ht.stored_eq
  rw [hseq, ht.qq_eq] at hqq
  have hmaster := m.source
  rw [ht.qq_eq] at hmaster
  exact ⟨(List.cons.inj hqq).1.symm, hmaster⟩

/-- An exchange that has sent its telegram can end. -/
theorem Uttered.conversed {tel : Telegram} (h : Uttered tel evs) (hdefined : tel.type ≠ .undefined) :
    ∃ rest, Conversed tel (evs ++ rest) := by
  rcases h with ⟨hbc, hecho⟩ | ⟨hne, last, hsent⟩
  · exact ⟨[], by rw [List.append_nil]; exact .broadcast hbc hecho⟩
  by_cases hlast : tel.type = .MM ∨ last ≠ seqAck
  · exact ⟨[], by rw [List.append_nil]; exact .ended hne hsent hlast⟩
  obtain ⟨hmm, rfl⟩ : tel.type ≠ .MM ∧ last = seqAck := by simpa using hlast
  have hms : tel.type = .MS := by
    cases htype : tel.type <;> simp_all
  -- the shortest response: no data, and its CRC is zero
  have hraw : Response [0, 0] := .intro 0 (by decide) (.symbol (by decide) .nil)
  have ht : Slave.Text ⟨[], Nat.zero_le _⟩ (reduceBytes [0, 0]) ⟨extendBytes (Slave.bytes ⟨[], Nat.zero_le _⟩), true⟩ :=
    .full
  exact ⟨_, .answered hms hsent (.accepted (.inl rfl) hraw ht 0)⟩

/-- What a round may write continues what the log ends with. -/
theorem Prefaced.occasion (h : Prefaced address impl log state) (hready : Ready impl state)
    (hown : impl.address = address) (hslave : impl.slaveAddress = EBusFsm.slaveAddress address)
    (hcarries : ∀ message, impl.activeMessage = some message → ∃ request, message.Carries address request) :
    (∀ evs, ¬ Speech impl state evs) ∨ ∃ pre sent, log = pre ++ sent ∧
      ∀ evs, Speech impl state evs → ∃ rest, Occasion address (sent ++ evs ++ rest) := by
  cases state with
  | idleSystem | openDevice | monitorBus | processMessage => exact .inl fun _ => id
  | receiveMessage =>
    obtain ⟨pre, qq, zz, hseq, hlog⟩ := h
    obtain ⟨qq', zz', hseq', haddr⟩ := hready
    refine .inr ⟨pre, [.got qq, .got zz], hlog, ?_⟩
    rintro _ ⟨q, z, r, acked, hseq'', rfl, hframed, hreplied⟩
    obtain ⟨rfl, rfl⟩ : qq = q ∧ zz = z := by simpa using hseq.symm.trans hseq''
    obtain ⟨rfl, rfl⟩ : qq = qq' ∧ zz = zz' := by simpa using hseq.symm.trans hseq'
    rw [Addressed, hown, hslave] at haddr
    refine ⟨[], ?_⟩
    have hoccasion := Occasion.receive hframed ⟨qq, zz, r, rfl, haddr⟩ hreplied
    simpa using hoccasion
  | sendResponse =>
    obtain ⟨message, log', m, stored, s, l, hpassive, rfl, ⟨pre, raw, x, rfl, hraw, hdirected, ht⟩, hms, hs, hcrc⟩ := h
    refine .inr ⟨pre, raw.map .got ++ [.wrote seqAck, .got x, .processed stored.seq], by simp, ?_⟩
    rintro evs ⟨message', last, hpassive', hevs⟩
    obtain rfl := Option.some_inj.1 (hpassive.symm.trans hpassive')
    rw [hcrc] at hevs
    exact ⟨[], by rw [List.append_nil]; exact .answer hraw hdirected ht hms hs hevs x⟩
  | lockBus =>
    obtain ⟨-, pre, pause, hlog, hpause⟩ := h
    refine .inr ⟨pre, _, hlog, ?_⟩
    rintro _ ⟨message, qq, rest, x, hactive, hqq, rfl⟩
    obtain ⟨request, hc⟩ := hcarries message hactive
    obtain ⟨rfl, hmaster⟩ := hc.master hqq
    exact ⟨[], by rw [List.append_nil]; exact .bid hmaster hpause x⟩
  | sendMessage =>
    obtain ⟨pre, hlog⟩ := h
    refine .inr ⟨pre, _, hlog, ?_⟩
    rintro evs ⟨message, hactive, huttered⟩
    obtain ⟨request, hc⟩ := hcarries message hactive
    have hdefined : message.telegram.type ≠ .undefined := by
      obtain ⟨m, -, htype, -⟩ := hc
      rw [htype]
      exact m.type_ne_undefined
    obtain ⟨rest, hconversed⟩ := huttered.conversed hdefined
    refine ⟨rest ++ [.wrote seqSyn, .got 0], ?_⟩
    have hoccasion := Occasion.exchange hc hconversed 0
    simpa using hoccasion
  | receiveResponse =>
    obtain ⟨pre, message, request, sent, hc, hms, hsent, hlog⟩ := h
    refine .inr ⟨pre, _, hlog, fun evs hreplies => ⟨[.wrote seqSyn, .got 0], ?_⟩⟩
    have hoccasion := Occasion.exchange hc (.answered hms hsent hreplies) 0
    simpa using hoccasion
  | freeBus =>
    obtain ⟨pre, message, request, sent, hc, hconversed, hlog⟩ := h
    refine .inr ⟨pre, _, hlog, ?_⟩
    rintro _ ⟨x, rfl⟩
    exact ⟨[], by rw [List.append_nil]; exact .exchange hc hconversed x⟩

/-- A round writes on occasions only. -/
theorem justified_round (hlog : Justified (OnOccasion address) log) (h : Prefaced address impl log state)
    (hready : Ready impl state) (hown : impl.address = address)
    (hslave : impl.slaveAddress = EBusFsm.slaveAddress address)
    (hcarries : ∀ message, impl.activeMessage = some message → ∃ request, message.Carries address request)
    (hbegins : Begins (Speech impl state) evs) : Justified (OnOccasion address) (log ++ evs) := by
  rcases h.occasion hready hown hslave hcarries with hno | ⟨pre, sent, hsent, hS⟩
  · refine justified_mute hlog (hbegins.resolve_right ?_)
    rintro ⟨_, _, _, -, -, hspeech⟩
    exact hno _ hspeech
  · exact justified_begins hlog hsent hbegins hS

end Log

/-! ### The next state -/

/-- What a round ends with that goes on to `freeBus`. -/
def Concludes (impl : EbusImpl) (evs : List Event) : State → Prop
  | .sendMessage => ∀ message, impl.activeMessage = some message → Conversed message.telegram evs
  | .receiveResponse => Responses evs
  | _ => True

section Next

variable {address : Byte} {impl impl' : EbusImpl} {env : Env} {state : State} {result : Except Stop State}
  {evs log : List Event}

/-- A round that goes on to `freeBus` ended as its handler did. -/
theorem concludes (hready : Ready impl state) {w : World} (hexec : exec (runState state) { impl, env } = (.ok .freeBus, w)) :
    Concludes impl w.events state := by
  suffices hwp : wp (handler state) (fun next w => next = .freeBus → Concludes impl w.events state) (fun _ _ => True)
      { impl, env } by
    have hrun : wp (runState state) (fun next w => next = .freeBus → Concludes impl w.events state) (fun _ _ => True)
        { impl, env } := by
      unfold runState
      rw [wp_tryCatch]
      refine wp_mono hwp (fun _ _ h => h) fun e w _ => ?_
      cases e with
      | warning | error =>
        rw [wp_handleDeviceError]
        simp
      | _ => trivial
    exact wp_ok hrun hexec rfl
  cases state with
  | sendMessage =>
    obtain ⟨message, hmessage⟩ := hready
    refine wp_sendMessage _ _ _ hmessage ?_ ?_ ?_ fun _ _ _ _ => trivial
    all_goals intro htype
    · rintro evs w hevs h - - message' hmessage'
      obtain rfl := Option.some_inj.1 (hmessage.symm.trans hmessage')
      rw [h.events]
      exact .broadcast htype hevs
    · rintro evs w hevs h - hnext message' hmessage'
      obtain rfl := Option.some_inj.1 (hmessage.symm.trans hmessage')
      rw [h.events]
      by_cases hmm : message.telegram.type = .MM
      · exact .ended htype hevs (.inl hmm)
      · rw [if_neg hmm] at hnext
        cases hnext
    · rintro evs last w hlast hevs h - - message' hmessage'
      obtain rfl := Option.some_inj.1 (hmessage.symm.trans hmessage')
      rw [h.events]
      exact .ended htype hevs (.inr hlast)
  | receiveResponse =>
    obtain ⟨message, hmessage⟩ := hready
    refine wp_mono (wp_receiveResponse_begun { impl, env } hmessage) (fun _ w h hnext => ?_) fun _ _ _ => trivial
    obtain ⟨l, hw, -, hreplies⟩ := h
    rw [hw]
    exact hreplies hnext
  | _ => exact (wp_def _ _ _ _).2 ⟨fun _ _ _ _ => trivial, fun _ _ _ => trivial⟩

theorem prefaced_monitorBus (h : impl.sequence.seq = []) : Prefaced address impl log .monitorBus :=
  ⟨log, by rw [h, List.map_nil, List.append_nil]⟩

/-- The next state is entered with the log it asks for. -/
theorem Handled.prefaced (h : Handled impl env state result impl' evs) (hpre : Prefaced address impl log state)
    (hready : Ready impl state) (hown : impl.address = address)
    (hslave : impl.slaveAddress = EBusFsm.slaveAddress address)
    (hcarries : ∀ message, impl.activeMessage = some message → ∃ request, message.Carries address request)
    (hconcludes : result = .ok .freeBus → Concludes impl evs state) :
    (Control.after result).Holds (Prefaced address impl' (log ++ evs)) := by
  cases h with
  | idle hresult => rcases hresult with ⟨-, rfl⟩ | ⟨-, rfl⟩ <;> trivial
  | collected =>
    obtain ⟨pre, rfl⟩ := hpre
    refine ⟨pre, ?_⟩
    rw [Sequence.pushBack_seq, List.map_append, List.append_assoc]
    rfl
  | addressed _ _ hseq =>
    obtain ⟨pre, rfl⟩ := hpre
    refine ⟨pre, _, _, rfl, ?_⟩
    rw [hseq, List.append_assoc]
    rfl
  | synced _ _ hevs hseq =>
    show Prefaced _ _ _ (if _ then _ else _)
    split_ifs
    · refine ⟨hseq, log, _, rfl, fun e he => ?_⟩
      cases hevs with
      | nothing => exact absurd he List.not_mem_nil
      | telegram =>
        obtain rfl := List.mem_singleton.1 he
        rfl
    · exact prefaced_monitorBus hseq
  | @received qq zz r m stored seq acked _ hseq hr ht hacked _ hred =>
    obtain ⟨pre, qq', zz', hseq', rfl⟩ := hpre
    obtain ⟨rfl, rfl⟩ : qq = qq' ∧ zz = zz' := by simpa using hseq.symm.trans hseq'
    obtain ⟨q, z, hseq'', haddr⟩ := hready
    obtain ⟨rfl, rfl⟩ : qq = q ∧ zz = z := by simpa using hseq.symm.trans hseq''
    rw [Addressed, hown, hslave] at haddr
    intro m' stored' ht' hms
    rw [hred] at ht'
    obtain ⟨rfl, rfl⟩ := ht.unique ht'
    cases hacked with
    | broadcast hbc => exact absurd (hbc.symm.trans hms) (by decide)
    | ack _ x =>
      refine ⟨pre, qq :: zz :: r, x, ?_, hr, ⟨qq, zz, r, rfl, haddr⟩, ht⟩
      rw [receivedEvents, if_neg (not_not.2 hms)]
      simp
  | @answer m s stored storedSlave seq ht hms hprocessing hs =>
    refine ⟨_, log, m, stored, s, _, rfl, ?_, hpre m stored ht hms, hms, hs, rfl⟩
    rw [processEvents, if_pos hprocessing]
  | won hactive hqq =>
    obtain ⟨request, hc⟩ := hcarries _ hactive
    obtain ⟨rfl, -⟩ := hc.master hqq
    exact ⟨log, rfl⟩
  | lost =>
    show Prefaced address _ _ .monitorBus
    exact prefaced_monitorBus hpre.1
  | broadcast hactive =>
    obtain ⟨pre, rfl⟩ := hpre
    obtain ⟨request, hc⟩ := hcarries _ hactive
    exact ⟨pre, _, request, _, hc, hconcludes rfl _ hactive, List.append_assoc _ _ _⟩
  | @acked message _ _ hactive htype hevs =>
    obtain ⟨pre, rfl⟩ := hpre
    obtain ⟨request, hc⟩ := hcarries _ hactive
    by_cases hmm : message.telegram.type = .MM
    · rw [if_pos hmm] at hconcludes ⊢
      exact ⟨pre, _, request, _, hc, hconcludes rfl _ hactive, List.append_assoc _ _ _⟩
    · have hms : message.telegram.type = .MS := by
        obtain ⟨m, -, heq, -⟩ := hc
        rw [heq] at htype hmm ⊢
        exact (m.type_cases.resolve_left htype).resolve_left hmm
      rw [if_neg hmm]
      exact ⟨pre, _, request, _, hc, hms, hevs, List.append_assoc _ _ _⟩
  | unacked hactive =>
    obtain ⟨pre, rfl⟩ := hpre
    obtain ⟨request, hc⟩ := hcarries _ hactive
    exact ⟨pre, _, request, _, hc, hconcludes rfl _ hactive, List.append_assoc _ _ _⟩
  | accepted | rejected =>
    obtain ⟨pre, message, request, sent, hc, hms, hsent, rfl⟩ := hpre
    refine ⟨pre, message, request, _, hc, .answered hms hsent (hconcludes rfl), ?_⟩
    simp only [List.append_assoc]
  | opened | oversize | refused | drop | responded | responseOversize | freed =>
    show Prefaced address _ _ .monitorBus
    exact prefaced_monitorBus rfl
  | device _ he =>
    rcases he with rfl | rfl
    · show Prefaced address _ _ .monitorBus
      exact prefaced_monitorBus rfl
    · trivial
  | _ => trivial

theorem Prefaced.setting (hsequence : impl'.sequence = impl.sequence) (hpassive : impl'.passiveMessage = impl.passiveMessage)
    (h : Prefaced address impl log state) : Prefaced address impl' log state := by
  cases state <;> simp only [Prefaced, hsequence, hpassive] at h ⊢ <;> exact h

end Next

/-! ### Runs -/

/-- Everything was written on an occasion, and the log is as the next handler asks for it. -/
structure Orderly (address : Byte) (s : System) : Prop where
  justified : Justified (OnOccasion address) s.log
  prefaced : s.control.Holds (Prefaced address s.impl s.log)

theorem Orderly.thread {address : Byte} {s s' : System} {env : Env} (hsound : Sound address s) (h : Orderly address s)
    (hstep : s.step (.thread env) = some s') : Orderly address s' := by
  obtain ⟨hjustified, hprefaced⟩ := h
  have hready := hsound.control
  unfold System.step at hstep
  rcases hstate : s.control with state | _ | _ | _ | _ | _
  case loop =>
    rw [hstate] at hprefaced hready
    simp only [hstate, Option.some.injEq] at hstep
    subst hstep
    by_cases hrunning : s.impl.running = true
    swap
    · rw [System.runThread, if_pos (by simpa using hrunning)]
      exact ⟨hjustified, trivial⟩
    rw [runThread_eq hrunning]
    have hcarries : ∀ message, s.impl.activeMessage = some message → ∃ request, message.Carries address request :=
      fun message hactive => hsound.carries message
        (mem_messages_of_held (List.mem_append_left _ (Option.mem_toList.2 hactive)))
    rcases hexec : exec (runState state) { impl := s.impl, env } with ⟨e | next, w⟩
    · have hh := wp_error (handled hready) hexec
      have hbegins := wp_error (begun hready) hexec
      exact ⟨justified_round hjustified hprefaced hready hsound.own hsound.ownSlave hcarries hbegins,
        hh.prefaced hprefaced hready hsound.own hsound.ownSlave hcarries fun hnext => by cases hnext⟩
    · have hh := wp_ok (handled hready) hexec
      have hbegins := wp_ok (begun hready) hexec
      exact ⟨justified_round hjustified hprefaced hready hsound.own hsound.ownSlave hcarries hbegins,
        hh.prefaced hprefaced hready hsound.own hsound.ownSlave hcarries fun hnext => by
          cases hnext
          exact concludes hready hexec⟩
  all_goals simp [hstate] at hstep

theorem Orderly.step {address : Byte} {s s' : System} {a : Action} (hsound : Sound address s) (h : Orderly address s)
    (hstep : s.step a = some s') : Orderly address s' := by
  have hthread := fun env (ha : a = .thread env) => h.thread hsound (ha ▸ hstep)
  obtain ⟨hjustified, hprefaced⟩ := h
  cases stepped hsound.control hstep with
  | setting | enqueued => exact ⟨hjustified, hprefaced.mono fun _ => Prefaced.setting rfl rfl⟩
  | failed | called | awoken => exact ⟨hjustified, hprefaced⟩
  | stopped | thread => exact hthread _ rfl
  | @check state hstate =>
    rw [hstate] at hprefaced
    refine ⟨hjustified, ?_⟩
    show Prefaced address s.impl s.log (if s.impl.close then .idleSystem else state)
    split_ifs
    · trivial
    · exact hprefaced
  | wake => exact ⟨hjustified, trivial⟩

end EBusFsm
