import EBusFsm.Lib.Pieces
import EBusFsm.Machine.Network
import EBusFsm.Machine.Stranded

/-!
# A participant that only listens

A participant that has nothing to send and that nobody addresses is a `Monitor`: it cuts the bytes of the bus at
the synchronization bytes and tells the telegram that a piece holds for the parser (`Tells`). `monitor_overhears` says that in every
run, whatever the device gives and whatever `open` and `close` do meanwhile, the machine publishes exactly what
the monitor tells and writes nothing. A timeout drops the piece but not the step: the next byte starts a new
piece without a synchronization byte, and one that comes while the device is synchronized ends the search.
-/

namespace EBusFsm

open Prog

/-! ### The monitor -/

/-- What a piece of the bus says: the telegram in it, with its parts as they are published. `Accepted` is the
language of the parser, in which a telegram may lack an acknowledge byte or have more bytes behind it. -/
inductive Tells (piece : List Byte) : List (List Byte × List Byte) → Prop
  | telegram {m : Master} {s : Option Slave} (h : Accepted (reduceBytes piece) m s) :
      Tells piece [(extendBytes m.bytes, s.elim [] fun s => extendBytes s.bytes)]
  | nothing (h : ∀ m s, ¬ Accepted (reduceBytes piece) m s) : Tells piece []

/-- What the result of a `recv` with a timeout is to a monitor. -/
def RecvResult.heard : RecvResult → Heard Byte
  | .byte b => .symbol b
  | .timeout | .eof => .lost
  | .invalid | .pollError | .readError => .broken

/-- The results that a handler takes from the device. -/
def taken (impl : EbusImpl) (env : Env) (state : State) : List RecvResult :=
  env.reads.take (env.reads.length - (exec (runState state) { impl, env }).2.env.reads.length)

/-- What a step hears: `idleSystem` closes the device, and `openDevice` may not get it open. -/
def System.heard (s : System) (a : Action) : List (Heard Byte) :=
  match a, s.control with
  | .thread env, .loop state =>
    if s.impl.running = false then []
    else if state = .idleSystem ∨ state = .openDevice ∧ s.impl.deviceOpen = false ∧ env.opens = false then
      [.broken]
    else (taken s.impl env state).map RecvResult.heard
  | _, _ => []

/-- What a run heard. -/
def heardIn (history : List (System × Action)) : List (Heard Byte) := history.flatMap fun e => e.1.heard e.2

/-- Nobody calls `transmit`, and no telegram is addressed to the participant. -/
structure Bystanding (s : System) (a : Action) : Prop where
  silent : ∀ message, a ≠ .transmit message
  other : ∀ env qq zz rest, a = .thread env → s.control = .loop .monitorBus → s.impl.sequence.seq = [qq] →
    env.reads = .byte zz :: rest → zz ≠ seqSyn → ¬ Addressed s.impl zz

/-! ### What a piece says -/

/-- What `decodeSequence` publishes is what the piece says. -/
theorem tells_decoded (piece : List Byte) : ∃ tel,
    Telegram.ofSequence ⟨piece, true⟩ = .ok (tel, Sequence.reduce ⟨piece, true⟩) ∧
      Tells piece (publishedPairs (decodedEvents tel)) := by
  obtain ⟨tel, hrun, hvalid, haccept⟩ := ({} : Telegram).parse_spec ⟨piece, true⟩
  refine ⟨tel, hrun, ?_⟩
  rw [Sequence.reduce_extended] at hvalid haccept
  unfold decodedEvents
  split_ifs with h
  · obtain ⟨m, s, hm, hdecoded⟩ := hvalid h
    have hslave : tel.slave.seq = s.elim [] fun s => extendBytes s.bytes := by
      cases s with
      | none => rw [hdecoded.noSlave rfl]; rfl
      | some s => rw [(hdecoded.slave s rfl).1]; rfl
    rw [publishedPairs_published, hdecoded.master, hslave]
    exact .telegram hm
  · exact .nothing fun m s hm => h (haccept m s hm).1

/-- A piece says one thing. -/
theorem Tells.unique {piece : List Byte} {l l' : List (List Byte × List Byte)} (h : Tells piece l)
    (h' : Tells piece l') : l = l' := by
  have hpair : ∀ {m : Master} {s : Option Slave}, Accepted (reduceBytes piece) m s →
      ∀ {m' : Master} {s' : Option Slave}, Accepted (reduceBytes piece) m' s' →
      (extendBytes m.bytes, s.elim [] fun s => extendBytes s.bytes) =
        (extendBytes m'.bytes, s'.elim [] fun s => extendBytes s.bytes) := by
    obtain ⟨tel, -, -, haccept⟩ := ({} : Telegram).parse_spec ⟨piece, true⟩
    rw [Sequence.reduce_extended] at haccept
    have htel : ∀ {m : Master} {s : Option Slave}, Accepted (reduceBytes piece) m s →
        (extendBytes m.bytes, s.elim [] fun s => extendBytes s.bytes) = (tel.master.seq, tel.slave.seq) := by
      intro m s hm
      have hdecoded := (haccept m s hm).2
      rw [hdecoded.master]
      cases s with
      | none => rw [hdecoded.noSlave rfl]; rfl
      | some s => rw [(hdecoded.slave s rfl).1]; rfl
    intro m s hm m' s' hm'
    rw [htel hm, htel hm']
  cases h with
  | telegram h =>
    cases h' with
    | telegram h' => rw [hpair h h']
    | nothing h' => exact absurd h (h' _ _)
  | nothing h =>
    cases h' with
    | telegram h' => exact absurd h' (h _ _)
    | nothing => rfl

theorem exists_tells (piece : List Byte) : ∃ l, Tells piece l := by
  obtain ⟨tel, -, h⟩ := tells_decoded piece
  exact ⟨_, h⟩

/-- What a piece says, as a function. -/
noncomputable def told (piece : List Byte) : List (List Byte × List Byte) := (exists_tells piece).choose

theorem told_eq {piece : List Byte} {l : List (List Byte × List Byte)} (h : Tells piece l) : told piece = l :=
  (exists_tells piece).choose_spec.unique h

/-- Nothing was heard since the last synchronization byte. -/
theorem told_nil : told [] = [] := by
  refine told_eq (.nothing fun m s h => ?_)
  have hconcluded : Concluded [] m s := concluded_of_accepted h not_unacknowledged_nil
  exact absurd hconcluded.length_le (by simp)

/-! ### Rounds -/

/-- The machine holds no message. -/
structure EbusImpl.Idle (impl : EbusImpl) : Prop where
  active : impl.activeMessage = none
  queue : impl.messageQueue = []

/-- The members hold the piece that the monitor has heard. -/
def Tuned (impl : EbusImpl) : Monitor Byte → State → Prop
  | m, .openDevice => m = .deaf ∧ impl.sequence.seq = []
  | m, .monitorBus => m = .hears impl.sequence.seq ∧ (impl.sequence.seq ≠ [] → impl.sequence.extended = true)
  | _, .idleSystem => True
  | _, _ => False

section Round

variable {impl : EbusImpl} {env : Env} {m : Monitor Byte}

/-- What the monitor does on what the handler took from the device. -/
structure Hearing (env : Env) (m : Monitor Byte) (w : World) (m' : Monitor Byte) : Prop where
  idle : w.impl.Idle
  silent : wroteBytes w.events = []
  used : ∃ used, env.reads = used ++ w.env.reads ∧
    m.listen seqSyn told (used.map RecvResult.heard) = (m', publishedPairs w.events)

/-- A read with a timeout gives a byte, or the device stops it. -/
theorem wp_read_heard (nsec : Nat) (Q : Byte → World → Prop) (E : Stop → World → Prop) (w : World)
    (hbyte : ∀ b reads, w.env.reads = .byte b :: reads → Q b (w.got b))
    (hlost : ∀ r reads, w.env.reads = r :: reads → r.heard = .lost →
      E .warning { w with env := { w.env with reads } })
    (hbroken : ∀ r reads deviceOpen, w.env.reads = r :: reads → r.heard = .broken →
      E .error { w with impl := { w.impl with deviceOpen }, env := { w.env with reads } })
    (hdry : w.env.reads = [] → E .starved w) : wp (read 1 nsec) Q E w := by
  cases hreads : w.env.reads with
  | nil =>
    have h := hdry hreads
    simp only [read, deviceRecv, wp_bind, wp_get, hreads, wp_throw]
    exact h
  | cons r reads =>
    cases r with
    | byte b => exact (wp_read_byte 1 nsec Q E w b reads hreads).2 (hbyte b reads hreads)
    | invalid =>
      have h := hbroken .invalid reads false hreads rfl
      simp only [read, deviceRecv, wp_bind, wp_get, hreads, wp_set, deviceClose, wp_modifyImpl, wp_throw]
      exact h
    | pollError =>
      have h := hbroken .pollError reads w.impl.deviceOpen hreads rfl
      simp only [read, deviceRecv, wp_bind, wp_get, hreads, wp_set, wp_throw, zero_lt_one, true_or, if_true]
      exact h
    | timeout =>
      have h := hlost .timeout reads hreads rfl
      simp only [read, deviceRecv, wp_bind, wp_get, hreads, wp_set, wp_throw, zero_lt_one, true_or, if_true]
      exact h
    | readError =>
      have h := hbroken .readError reads w.impl.deviceOpen hreads rfl
      simp only [read, deviceRecv, wp_bind, wp_get, hreads, wp_set, wp_throw]
      exact h
    | eof =>
      have h := hlost .eof reads hreads rfl
      simp only [read, deviceRecv, wp_bind, wp_get, hreads, wp_set, wp_throw]
      exact h

/-- The catch clauses of `run` when no message is active. -/
theorem wp_runState_idle {state : State} {Q : State → World → Prop} {E : Stop → World → Prop} {w : World}
    (h : wp (handler state) Q (fun e w' => w'.impl.activeMessage = none ∧
      (e = .warning → Q .monitorBus { w' with impl := resetImpl w'.impl }) ∧
      (e = .error → Q .openDevice { w' with impl := { resetImpl w'.impl with deviceOpen := false } }) ∧
      (e ≠ .warning → e ≠ .error → E e w')) w) : wp (runState state) Q E w := by
  rw [runState, wp_tryCatch]
  refine wp_mono h (fun _ _ hQ => hQ) fun e w' he => ?_
  obtain ⟨hactive, hwarning, herror, hother⟩ := he
  cases e with
  | warning =>
    have hQ := hwarning rfl
    refine (wp_handleDeviceError false Q E w').2 ?_
    simpa [hactive, resetEvents, resetImpl] using hQ
  | error =>
    have hQ := herror rfl
    refine (wp_handleDeviceError true Q E w').2 ?_
    simpa [hactive, resetEvents, resetImpl] using hQ
  | _ => exact hother (by simp) (by simp)

/-- A synchronization byte ends the piece, and `monitorBus` goes on. -/
theorem wp_handleSyn_idle {Q : State → World → Prop} {E : Stop → World → Prop} {w : World}
    (hidle : w.impl.Idle) (hext : w.impl.sequence.seq ≠ [] → w.impl.sequence.extended = true)
    (hok : ∀ lockCounter sequence evs, sequence.seq = [] →
      publishedPairs evs = told w.impl.sequence.seq → wroteBytes evs = [] →
      Q .monitorBus { w with
        impl := { w.impl with lockCounter, sequence }, events := w.events ++ evs }) : wp handleSyn Q E w := by
  have hcheck : ∀ lockCounter sequence evs, sequence.seq = [] →
      publishedPairs evs = told w.impl.sequence.seq → wroteBytes evs = [] →
      wp checkMessage Q E { w with
        impl := { w.impl with lockCounter, sequence }, events := w.events ++ evs } := by
    intro lockCounter sequence evs hseq htold hwrote
    have hQ := hok lockCounter sequence evs hseq htold hwrote
    refine wp_checkMessage _ _ _ fun active queue hdequeued _ => ?_
    cases hdequeued with
    | keep =>
      rw [if_neg (by simp [hidle.active])]
      exact hQ
    | take message queue _ hqueue => exact absurd (hidle.queue.symm.trans hqueue) (List.cons_ne_nil _ _).symm
  simp only [handleSyn, countLock, wp_bind, wp_modifyImpl, wp_getImpl]
  by_cases hseq : w.impl.sequence.seq = []
  · have hsize : ¬ w.impl.sequence.size ≠ 0 := by simp [Sequence.size, hseq]
    have hc := hcheck (if w.impl.lockCounter ≠ 0 then w.impl.lockCounter - 1 else w.impl.lockCounter)
      w.impl.sequence [] hseq (by rw [hseq, told_nil]; rfl) rfl
    rw [List.append_nil] at hc
    rw [if_neg hsize]
    exact hc
  · have hsize : w.impl.sequence.size ≠ 0 := fun h => hseq (List.length_eq_zero_iff.1 h)
    have hsequence : w.impl.sequence = ⟨w.impl.sequence.seq, true⟩ := by
      rw [← hext hseq]
    obtain ⟨tel, htel, htells⟩ := tells_decoded w.impl.sequence.seq
    rw [← hsequence] at htel
    rw [if_pos hsize, wp_bind]
    refine (wp_decodeSequence (fun _ w' => wp checkMessage Q E w') E _ (by rfl) htel).2 ?_
    refine hcheck _ {} (decodedEvents tel) rfl (told_eq htells).symm ?_
    unfold decodedEvents
    split_ifs <;> rfl

/-- A handler that took one result. -/
theorem Hearing.one {r : RecvResult} {reads : List RecvResult} {w : World} {m' : Monitor Byte}
    (hreads : env.reads = r :: reads) (hrest : w.env.reads = reads) (hidle : w.impl.Idle)
    (hwrote : wroteBytes w.events = []) (hhear : m.hear seqSyn told r.heard = (m', publishedPairs w.events)) :
    Hearing env m w m' := by
  refine ⟨hidle, hwrote, [r], by rw [hreads, hrest]; rfl, ?_⟩
  rw [List.map_singleton, Monitor.listen_singleton, hhear]

/-- `monitorBus` hears a byte. -/
theorem wp_monitorBus_byte {b : Byte} {reads : List RecvResult} (hreads : env.reads = .byte b :: reads)
    (hidle : impl.Idle) (hext : impl.sequence.seq ≠ [] → impl.sequence.extended = true)
    (hother : ∀ qq, impl.sequence.seq = [qq] → b ≠ seqSyn → ¬ Addressed impl b) :
    wp monitorBus (fun next w => ∃ m, Hearing env (.hears impl.sequence.seq) w m ∧ Tuned w.impl m next)
      (fun _ _ => False) { impl, env } := by
  have hnext : ∀ {b' : Byte} {w' : World}, Adv { impl, env } w' [.got b'] →
      b' = b ∧ w'.env.reads = reads ∧ w'.events = [.got b'] := by
    intro b' w' h
    have h' : env.reads = .byte b' :: w'.env.reads := h.reads
    rw [hreads] at h'
    obtain ⟨hb, hrest⟩ := List.cons.inj h'
    exact ⟨(RecvResult.byte.inj hb).symm, hrest.symm, h.events⟩
  refine wp_monitorBus _ _ _ (fun b' w' hb _ h himpl => ?_) (fun qq zz w' hzz h hseq haddressed _ => ?_)
    (fun w' h himpl => ?_) fun e w' h => ?_
  · obtain ⟨rfl, hrest, hevents⟩ := hnext h
    change w'.impl = { impl with sequence := impl.sequence.pushBack b' } at himpl
    refine ⟨.hears (impl.sequence.seq ++ [b']), .one hreads hrest ?_ ?_ ?_, ?_⟩
    · rw [himpl]
      exact ⟨hidle.active, hidle.queue⟩
    · rw [hevents]
      rfl
    · rw [hevents, RecvResult.heard, Monitor.hear, if_neg hb]
      rfl
    · rw [himpl]
      exact ⟨rfl, fun _ => rfl⟩
  · obtain ⟨rfl, -, -⟩ := hnext h
    exact absurd haddressed (hother qq hseq hzz)
  · obtain ⟨hb, hrest, hevents⟩ := hnext h
    have hidle' : w'.impl.Idle := himpl ▸ hidle
    refine wp_handleSyn_idle hidle' (by rw [himpl]; exact hext) fun lockCounter sequence evs hseq htold hwrote => ?_
    refine ⟨.hears [], .one hreads hrest ⟨hidle'.active, hidle'.queue⟩ ?_ ?_, ?_⟩
    · rw [wroteBytes_append, hevents, hwrote]
      rfl
    · rw [RecvResult.heard, Monitor.hear, if_pos hb.symm, publishedPairs_append, hevents, htold, himpl]
      rfl
    · exact ⟨by simp [hseq], fun hne => absurd hseq hne⟩
  · obtain ⟨rest, hrest, hno⟩ := h.dry
    exact hno b reads (hrest.symm.trans hreads)

/-- A round of `monitorBus` hears the next result. -/
theorem hearing_monitorBus (hidle : impl.Idle) (hext : impl.sequence.seq ≠ [] → impl.sequence.extended = true)
    (hother : ∀ qq zz rest, impl.sequence.seq = [qq] → env.reads = .byte zz :: rest → zz ≠ seqSyn →
      ¬ Addressed impl zz) :
    wp (runState .monitorBus)
      (fun next w => ∃ m, Hearing env (.hears impl.sequence.seq) w m ∧ Tuned w.impl m next)
      (fun e w => e = .starved ∧ ∃ m, Hearing env (.hears impl.sequence.seq) w m) { impl, env } := by
  refine wp_runState_idle ?_
  by_cases hbyte : ∃ b reads, env.reads = .byte b :: reads
  · obtain ⟨b, reads, hreads⟩ := hbyte
    refine wp_mono (wp_monitorBus_byte hreads hidle hext fun qq hseq hb => hother qq b reads hseq hreads hb)
      (fun _ _ h => h) fun _ _ h => h.elim
  · show wp monitorBus _ _ _
    rw [monitorBus, wp_bind]
    refine wp_read_heard 0 _ _ _ (fun b reads hreads => absurd ⟨b, reads, hreads⟩ hbyte)
      (fun r reads hreads hheard => ?_) (fun r reads deviceOpen hreads hheard => ?_) fun hreads => ?_
    · refine ⟨hidle.active, fun _ => ?_, by simp, by simp⟩
      refine ⟨.hears [], .one hreads rfl ⟨rfl, hidle.queue⟩ rfl ?_, rfl, fun h => absurd rfl h⟩
      rw [hheard]
      rfl
    · refine ⟨hidle.active, by simp, fun _ => ?_, by simp⟩
      refine ⟨.deaf, .one hreads rfl ⟨rfl, hidle.queue⟩ rfl ?_, rfl, rfl⟩
      rw [hheard]
      rfl
    · exact ⟨hidle.active, by simp, by simp, fun _ _ => ⟨rfl, _, hidle, rfl, [], rfl, rfl⟩⟩

/-- What the search for a synchronization byte takes from the device. -/
structure Flushing (w w' : World) (m : Monitor Byte) : Prop where
  impl : ∃ deviceOpen, w'.impl = { w.impl with deviceOpen }
  events : ∃ l : List Byte, w'.events = w.events ++ l.map .got
  used : ∃ used, w.env.reads = used ++ w'.env.reads ∧
    Monitor.deaf.listen seqSyn told (used.map RecvResult.heard) = (m, [])

/-- The search goes on behind a byte. -/
theorem Flushing.byte {w w' : World} {b : Byte} {reads : List RecvResult} (hreads : w.env.reads = .byte b :: reads)
    (hb : b ≠ seqSyn) (h : Flushing (w.got b) w' m) : Flushing w w' m := by
  obtain ⟨l, hl⟩ := h.events
  obtain ⟨used, hused, hlisten⟩ := h.used
  refine ⟨h.impl, ⟨b :: l, ?_⟩, .byte b :: used, ?_, ?_⟩
  · rw [hl, World.got, List.append_assoc]
    rfl
  · rw [World.got, hreads] at hused
    rw [hreads]
    exact congrArg _ hused
  · have hhear : Monitor.deaf.hear seqSyn told (.symbol b) = (.deaf, []) := by
      rw [Monitor.hear, if_neg hb]
    rw [List.map_cons, RecvResult.heard, Monitor.listen, hhear, hlisten]
    rfl

/-- The end of the search, by a synchronization byte or by a fault. -/
theorem Flushing.last {w w' : World} {r : RecvResult} {reads : List RecvResult} (hreads : w.env.reads = r :: reads)
    (hrest : w'.env.reads = reads) (himpl : ∃ deviceOpen, w'.impl = { w.impl with deviceOpen })
    (hevents : ∃ l : List Byte, w'.events = w.events ++ l.map .got)
    (hhear : Monitor.deaf.hear seqSyn told r.heard = (m, [])) : Flushing w w' m := by
  refine ⟨himpl, hevents, [r], by rw [hreads, hrest]; rfl, ?_⟩
  rw [List.map_singleton, Monitor.listen_singleton, hhear]

/-- A warning that comes during the search ends it like a synchronization byte. -/
theorem wp_flush_heard (fuel : Nat) (w : World) (hfuel : w.env.reads.length < fuel) :
    wp (flushDevice fuel) (fun _ w' => Flushing w w' (.hears []))
      (fun e w' => e = .warning ∧ Flushing w w' (.hears []) ∨ (e = .error ∨ e = .starved) ∧ Flushing w w' .deaf)
      w := by
  induction fuel generalizing w with
  | zero => exact absurd hfuel (Nat.not_lt_zero _)
  | succ fuel ih =>
    rw [flushDevice, wp_bind]
    refine wp_read_heard 0 _ _ w (fun b reads hreads => ?_) (fun r reads hreads hheard => ?_)
      (fun r reads deviceOpen hreads hheard => ?_) fun hreads => ?_
    · by_cases hb : b = seqSyn
      · rw [if_neg (not_not.2 hb), wp_pure]
        refine .last hreads (by rw [World.got, hreads]; rfl) ⟨_, rfl⟩ ⟨[b], rfl⟩ ?_
        rw [RecvResult.heard, Monitor.hear, if_pos hb]
      · rw [if_pos hb]
        have hshort : (w.got b).env.reads.length < fuel := by
          rw [World.got, hreads]
          rw [hreads, List.length_cons] at hfuel
          exact Nat.lt_of_succ_lt_succ hfuel
        refine wp_mono (ih _ hshort) (fun _ w' h => h.byte hreads hb) fun e w' h => ?_
        exact h.imp (fun h => ⟨h.1, h.2.byte hreads hb⟩) fun h => ⟨h.1, h.2.byte hreads hb⟩
    · refine .inl ⟨rfl, .last hreads rfl ⟨_, rfl⟩ ⟨[], (List.append_nil _).symm⟩ ?_⟩
      rw [hheard]
      rfl
    · refine .inr ⟨.inl rfl, .last hreads rfl ⟨_, rfl⟩ ⟨[], (List.append_nil _).symm⟩ ?_⟩
      rw [hheard]
      rfl
    · exact .inr ⟨.inr rfl, ⟨_, rfl⟩, ⟨[], (List.append_nil _).symm⟩, [], rfl, rfl⟩

theorem Flushing.hearing {w' : World} (h : Flushing { impl, env } w' m) (hidle : impl.Idle) :
    Hearing env .deaf w' m := by
  obtain ⟨deviceOpen, himpl⟩ := h.impl
  obtain ⟨l, hl⟩ := h.events
  obtain ⟨used, hused, hlisten⟩ := h.used
  have hgot : w'.events = l.map .got := hl
  refine ⟨?_, ?_, used, hused, ?_⟩
  · rw [himpl]
    exact ⟨hidle.active, hidle.queue⟩
  · rw [hgot]
    exact wroteBytes_map_got l
  · rw [hgot, publishedPairs_map_got]
    exact hlisten

/-- A round of `openDevice` with an open device hears until it is in step. -/
theorem hearing_synchronize (hidle : impl.Idle) :
    wp synchronize (fun next w => ∃ m, Hearing env .deaf w m ∧ Tuned w.impl m next)
      (fun e w => w.impl.activeMessage = none ∧
        (e = .warning → ∃ m, Hearing env .deaf { w with impl := resetImpl w.impl } m ∧
          Tuned (resetImpl w.impl) m .monitorBus) ∧
        (e = .error → ∃ m, Hearing env .deaf { w with impl := { resetImpl w.impl with deviceOpen := false } } m ∧
          Tuned { resetImpl w.impl with deviceOpen := false } m .openDevice) ∧
        (e ≠ .warning → e ≠ .error → e = .starved ∧ ∃ m, Hearing env .deaf w m)) { impl, env } := by
  simp only [synchronize, flush, wp_bind, wp_get]
  refine wp_mono (wp_flush_heard _ _ (Nat.lt_succ_self _)) (fun _ w' h => ?_) fun e w' h => ?_
  · have hhearing := h.hearing hidle
    have hnone := hhearing.idle.active
    simp only [wp_reset, wp_modifyImpl, wp_pure, World.reset, hnone, resetEvents, List.append_nil]
    exact ⟨_, ⟨⟨rfl, hhearing.idle.queue⟩, hhearing.silent, hhearing.used⟩, rfl, fun hne => absurd rfl hne⟩
  · have hhearing : ∃ m, Hearing env .deaf w' m := by
      rcases h with ⟨-, h⟩ | ⟨-, h⟩ <;> exact ⟨_, h.hearing hidle⟩
    obtain ⟨m, hm⟩ := hhearing
    refine ⟨hm.idle.active, ?_, ?_, ?_⟩
    · rintro rfl
      have hlost := (h.resolve_right (by simp)).2.hearing hidle
      exact ⟨_, ⟨⟨rfl, hlost.idle.queue⟩, hlost.silent, hlost.used⟩, rfl, fun hne => absurd rfl hne⟩
    · rintro rfl
      have hbroken := (h.resolve_left (by simp)).2.hearing hidle
      exact ⟨_, ⟨⟨rfl, hbroken.idle.queue⟩, hbroken.silent, hbroken.used⟩, rfl, rfl⟩
    · intro hwarning herror
      obtain ⟨he, -⟩ := h.resolve_left fun h => hwarning h.1
      exact ⟨he.resolve_left herror, m, hm⟩

theorem hearing_openDevice (hidle : impl.Idle) (hopens : ¬ (impl.deviceOpen = false ∧ env.opens = false)) :
    wp (runState .openDevice) (fun next w => ∃ m, Hearing env .deaf w m ∧ Tuned w.impl m next)
      (fun e w => e = .starved ∧ ∃ m, Hearing env .deaf w m) { impl, env } := by
  refine wp_runState_idle ?_
  show wp openDevice _ _ _
  unfold openDevice deviceOpen
  cases hopen : impl.deviceOpen with
  | true =>
    simp only [wp_bind, wp_getImpl, hopen, Bool.not_true, Bool.false_eq_true, if_false]
    exact hearing_synchronize hidle
  | false =>
    have hset : env.opens = true := by simpa [hopen] using hopens
    simp only [wp_bind, wp_getImpl, hopen, Bool.not_false, if_true, wp_get, hset, Bool.not_true,
      Bool.false_eq_true, if_false, wp_modifyImpl]
    exact hearing_synchronize ⟨hidle.active, hidle.queue⟩

/-- The device cannot be opened. -/
theorem refused_openDevice (hidle : impl.Idle) (hclosed : impl.deviceOpen = false) (hopens : env.opens = false) :
    wp (runState .openDevice)
      (fun next w => next = .openDevice ∧ w.impl.Idle ∧ w.impl.sequence.seq = [] ∧ w.events = [])
      (fun _ _ => False) { impl, env } := by
  refine wp_runState_idle ?_
  show wp openDevice _ _ _
  unfold openDevice deviceOpen
  simp only [wp_bind, wp_getImpl, hclosed, Bool.not_false, if_true, wp_get, hopens, wp_throw]
  exact ⟨hidle.active, by simp, fun _ => ⟨trivial, ⟨rfl, hidle.queue⟩, rfl, trivial⟩, by simp⟩

theorem idles_idleSystem (hidle : impl.Idle) :
    wp (runState .idleSystem)
      (fun next w => next = .openDevice ∧ w.impl.Idle ∧ w.impl.sequence.seq = [] ∧ w.events = [])
      (fun e w => e = .blocked ∧ w.impl.Idle ∧ w.impl.sequence.seq = [] ∧ w.events = []) { impl, env } := by
  have hevents : resetEvents impl.activeMessage = [] := by rw [hidle.active]; rfl
  refine wp_runState_idle ?_
  show wp idleSystem _ _ _
  refine wp_idleSystem _ _ _ (fun _ => ⟨rfl, ⟨rfl, hidle.queue⟩, rfl, hevents⟩) fun _ => ?_
  exact ⟨rfl, by simp, by simp, fun _ _ => ⟨rfl, ⟨rfl, hidle.queue⟩, rfl, hevents⟩⟩

end Round

/-! ### Runs -/

def Control.Tuned (impl : EbusImpl) (m : Monitor Byte) : Control → Prop
  | .loop state | .check state => EBusFsm.Tuned impl m state
  | .waiting => EBusFsm.Tuned impl m .openDevice
  | .hung | .stopped => True
  | .crashed => False

/-- The machine is where the monitor is. -/
structure Overhears (s : System) (m : Monitor Byte) : Prop where
  idle : s.impl.Idle
  entering : s.entering = []
  tuned : s.control.Tuned s.impl m

/-- What a round published is what the monitor told, and nothing was written. -/
structure Agreeing (s s' : System) (m : Monitor Byte) (heard : List (Heard Byte)) : Prop where
  overhears : Overhears s' (m.listen seqSyn told heard).1
  log : ∃ evs, s'.log = s.log ++ evs ∧ publishedPairs evs = (m.listen seqSyn told heard).2 ∧ wroteBytes evs = []

section Step

variable {address : Byte} {s s' : System} {a : Action} {m : Monitor Byte}

/-- A step that leaves the messages and the log alone. -/
theorem Agreeing.other (hidle : s'.impl.Idle) (hentering : s'.entering = []) (htuned : s'.control.Tuned s'.impl m)
    (hlog : s'.log = s.log) : Agreeing s s' m [] :=
  ⟨⟨hidle, hentering, htuned⟩, [], by rw [hlog, List.append_nil], rfl, rfl⟩

theorem heard_of_other (ha : ∀ env, a ≠ .thread env) : s.heard a = [] := by
  cases a with
  | thread env => exact absurd rfl (ha env)
  | _ => rfl

theorem taken_of_used {impl : EbusImpl} {env : Env} {state : State} {result : Except Stop State} {w : World}
    {used : List RecvResult} (hexec : exec (runState state) { impl, env } = (result, w))
    (hused : env.reads = used ++ w.env.reads) : taken impl env state = used := by
  rw [taken, hexec, hused, List.length_append, Nat.add_sub_cancel, List.take_left]

/-- A round hears what it takes from the device. -/
theorem Overhears.thread (h : Overhears s m) {env : Env} {state : State} (hstate : s.control = .loop state)
    (hrunning : s.impl.running = true) (hbystanding : Bystanding s (.thread env)) :
    Agreeing s (s.runThread state env) m (s.heard (.thread env)) := by
  have htuned := h.tuned
  rw [hstate] at htuned
  -- a handler that takes what it hears
  have htakes : ∀ {result : Except Stop State} {w : World} {m' : Monitor Byte},
      exec (runState state) { impl := s.impl, env } = (result, w) →
      ¬ (state = .idleSystem ∨ state = .openDevice ∧ s.impl.deviceOpen = false ∧ env.opens = false) →
      Hearing env m w m' → (Control.after result).Tuned w.impl m' →
      Agreeing s (s.runThread state env) m (s.heard (.thread env)) := by
    intro result w m' hexec hhears hhearing hnext
    obtain ⟨used, hused, hlisten⟩ := hhearing.used
    have hheard : s.heard (.thread env) = used.map RecvResult.heard := by
      simp only [System.heard, hstate, hrunning, Bool.true_eq_false, if_false, hhears,
        taken_of_used hexec hused]
    rw [hheard]
    refine ⟨?_, w.events, ?_, ?_, hhearing.silent⟩
    · rw [hlisten]
      simp only [System.runThread, hrunning, Bool.not_true, Bool.false_eq_true, if_false, hexec]
      exact ⟨hhearing.idle, h.entering, hnext⟩
    · simp only [System.runThread, hrunning, Bool.not_true, Bool.false_eq_true, if_false, hexec]
    · rw [hlisten]
  -- a handler that finds no device
  have hbroken : ∀ {result : Except Stop State} {w : World},
      exec (runState state) { impl := s.impl, env } = (result, w) →
      (state = .idleSystem ∨ state = .openDevice ∧ s.impl.deviceOpen = false ∧ env.opens = false) →
      w.impl.Idle → w.events = [] → (Control.after result).Tuned w.impl .deaf →
      Agreeing s (s.runThread state env) m (s.heard (.thread env)) := by
    intro result w hexec hcloses hidle hevents hnext
    have hheard : s.heard (.thread env) = [.broken] := by
      simp only [System.heard, hstate, hrunning, Bool.true_eq_false, if_false, hcloses, if_true]
    have hlisten : m.listen seqSyn told [.broken] = (.deaf, []) := by
      cases m <;> rfl
    rw [hheard]
    refine ⟨?_, [], ?_, ?_, rfl⟩
    · rw [hlisten]
      simp only [System.runThread, hrunning, Bool.not_true, Bool.false_eq_true, if_false, hexec]
      exact ⟨hidle, h.entering, hnext⟩
    · simp only [System.runThread, hrunning, Bool.not_true, Bool.false_eq_true, if_false, hexec, hevents]
    · rw [hlisten]
      rfl
  cases state with
  | idleSystem =>
    rcases hexec : exec (runState .idleSystem) { impl := s.impl, env } with ⟨e | next, w⟩
    · obtain ⟨rfl, hidle, hseq, hevents⟩ := wp_error (idles_idleSystem h.idle) hexec
      exact hbroken hexec (.inl rfl) hidle hevents ⟨rfl, hseq⟩
    · obtain ⟨rfl, hidle, hseq, hevents⟩ := wp_ok (idles_idleSystem h.idle) hexec
      exact hbroken hexec (.inl rfl) hidle hevents ⟨rfl, hseq⟩
  | openDevice =>
    obtain ⟨rfl, hseq⟩ := htuned
    by_cases hrefused : s.impl.deviceOpen = false ∧ env.opens = false
    · have hwp := refused_openDevice h.idle hrefused.1 hrefused.2
      obtain ⟨next, w, hexec, rfl, hidle, hseq, hevents⟩ := exists_of_wp hwp
      exact hbroken hexec (.inr ⟨rfl, hrefused⟩) hidle hevents ⟨rfl, hseq⟩
    · have hhears : ¬ (State.openDevice = .idleSystem ∨
          State.openDevice = .openDevice ∧ s.impl.deviceOpen = false ∧ env.opens = false) := by
        simpa using hrefused
      rcases hexec : exec (runState .openDevice) { impl := s.impl, env } with ⟨e | next, w⟩
      · obtain ⟨rfl, m', hhearing⟩ := wp_error (hearing_openDevice h.idle hrefused) hexec
        exact htakes hexec hhears hhearing trivial
      · obtain ⟨m', hhearing, hnext⟩ := wp_ok (hearing_openDevice h.idle hrefused) hexec
        exact htakes hexec hhears hhearing hnext
  | monitorBus =>
    obtain ⟨rfl, hext⟩ := htuned
    have hwp := hearing_monitorBus h.idle hext fun qq zz rest hseq hreads hzz =>
      hbystanding.other env qq zz rest rfl hstate hseq hreads hzz
    have hhears : ¬ (State.monitorBus = .idleSystem ∨
        State.monitorBus = .openDevice ∧ s.impl.deviceOpen = false ∧ env.opens = false) := by simp
    rcases hexec : exec (runState .monitorBus) { impl := s.impl, env } with ⟨e | next, w⟩
    · obtain ⟨rfl, m', hhearing⟩ := wp_error hwp hexec
      exact htakes hexec hhears hhearing trivial
    · obtain ⟨m', hhearing, hnext⟩ := wp_ok hwp hexec
      exact htakes hexec hhears hhearing hnext
  | _ => exact htuned.elim

theorem Control.Tuned.setting {impl impl' : EbusImpl} {control : Control}
    (hseq : impl'.sequence = impl.sequence) (h : control.Tuned impl m) : control.Tuned impl' m := by
  have htuned : ∀ state, EBusFsm.Tuned impl m state → EBusFsm.Tuned impl' m state := by
    intro state
    cases state <;> simp only [EBusFsm.Tuned, hseq, imp_self]
  cases control with
  | loop state | check state => exact htuned state h
  | waiting => exact htuned .openDevice h
  | _ => exact h

/-- Every step of a bystander is one of the monitor. -/
theorem Overhears.step (hsound : Sound address s) (h : Overhears s m) (hbystanding : Bystanding s a)
    (hstep : s.step a = some s') : Agreeing s s' m (s.heard a) := by
  have hother : (∀ env, a ≠ .thread env) → s'.impl.Idle → s'.entering = [] → s'.control.Tuned s'.impl m →
      s'.log = s.log → Agreeing s s' m (s.heard a) := by
    intro ha hidle hentering htuned hlog
    rw [heard_of_other ha]
    exact .other hidle hentering htuned hlog
  have hrun : ∀ {env : Env} {state : State}, s.control = .loop state → s.impl.running = true →
      s.step (.thread env) = some s' → Bystanding s (.thread env) →
      Agreeing s s' m (s.heard (.thread env)) := by
    intro env state hstate hrunning hstep hbystanding
    rw [System.step, hstate] at hstep
    rw [← Option.some_inj.1 hstep]
    exact h.thread hstate hrunning hbystanding
  have hstepped := stepped hsound.control hstep
  cases hstepped with
  | setting _ _ _ _ _ _ _ hsets =>
    exact hother (Action.sets.other hsets).1 ⟨h.idle.active, h.idle.queue⟩ h.entering (h.tuned.setting rfl) rfl
  | failed | called => exact absurd rfl (hbystanding.silent _)
  | enqueued hmessage =>
    rw [h.entering] at hmessage
    exact absurd hmessage List.not_mem_nil
  | awoken => exact hother (by simp) h.idle h.entering h.tuned rfl
  | @stopped state env hstate hrunning =>
    have hheard : s.heard (.thread env) = [] := by
      simp only [System.heard, hstate, hrunning, if_true]
    rw [hheard]
    exact .other h.idle h.entering trivial rfl
  | thread hstate _ hrunning => exact hrun hstate hrunning hstep hbystanding
  | @check state hstate =>
    refine hother (by simp) h.idle h.entering ?_ rfl
    have htuned := h.tuned
    rw [hstate] at htuned
    show EBusFsm.Tuned s.impl m (if s.impl.close then .idleSystem else state)
    split_ifs
    · trivial
    · exact htuned
  | wake hwait =>
    have htuned := h.tuned
    rw [hwait] at htuned
    exact hother (by simp) ⟨h.idle.active, h.idle.queue⟩ h.entering htuned rfl

end Step

/-- **A participant without messages is a monitor**: in every run in which nobody calls `transmit` and no
telegram is addressed to it, the machine publishes what the monitor tells of what it heard, and writes
nothing. -/
theorem monitor_overhears {address : Byte} {as : List Action} {s : System}
    (hrun : Run System.step Bystanding (System.init address) as s) :
    publishedPairs s.log =
        (Monitor.deaf.listen seqSyn told (heardIn (visited System.step (System.init address) as))).2 ∧
      wroteBytes s.log = [] := by
  have hinv := hrun.history (I := fun history s => Sound address s ∧
      Overhears s (Monitor.deaf.listen seqSyn told (heardIn history)).1 ∧
      publishedPairs s.log = (Monitor.deaf.listen seqSyn told (heardIn history)).2 ∧ wroteBytes s.log = [])
    (fun history s a s' h hbystanding hstep => ?_) ⟨sound_init address, ⟨⟨rfl, rfl⟩, rfl, rfl, rfl⟩, rfl, rfl⟩
  · exact hinv.2.2
  · obtain ⟨hsound, hoverhears, hpublished, hwrote⟩ := h
    obtain ⟨hoverhears', evs, hlog, hevs, hsilent⟩ := hoverhears.step hsound hbystanding hstep
    have hheard : heardIn (history ++ [(s, a)]) = heardIn history ++ s.heard a := by
      rw [heardIn, List.flatMap_append, List.flatMap_singleton]
      rfl
    rw [hheard, Monitor.listen_append, hlog, publishedPairs_append, wroteBytes_append, hpublished, hwrote, hevs,
      hsilent]
    exact ⟨hsound.step hstep, hoverhears', rfl, rfl⟩

/-- A test for `Bystanding`. -/
def bystanding (s : System) : Action → Bool
  | .transmit _ => false
  | .thread env => s.impl.sequence.size ≠ 1 ||
      match env.reads with
      | .byte zz :: _ => zz = seqSyn || decide (¬ Addressed s.impl zz)
      | _ => true
  | _ => true

theorem bystanding_of_test (s : System) (a : Action) (h : bystanding s a = true) : Bystanding s a where
  silent := by
    rintro message rfl
    exact absurd h (by simp [bystanding])
  other := by
    rintro env qq zz rest rfl - hseq hreads hzz
    have hsize : s.impl.sequence.size = 1 := by rw [Sequence.size, hseq]; rfl
    simpa [bystanding, hsize, hreads, hzz] using h

/-- A telegram of others behind a byte that a timeout drops. -/
def overhearSlave : List Action :=
  handlers [[0xaa], [0x03]] ++ [.thread { reads := [.timeout] }, .check] ++ handlers ([0xff, 0x08, 0xb5, 0x05,
    0x01, 0x27, 0xa8, 0x00, 0x01, 0x42, 0xd9, 0x00, 0xaa].map fun b => [b])

/-- The monitor tells the telegram, and the machine publishes it. -/
theorem monitor_overhears_sample :
    ∃ s, execute System.step bystanding (System.init 0x10) overhearSlave = some s ∧
      (Monitor.deaf.listen seqSyn told (heardIn (visited System.step (System.init 0x10) overhearSlave))).2 =
        [([0xff, 0x08, 0xb5, 0x05, 0x01, 0x27], [0x01, 0x42])] ∧ wroteBytes s.log = [] := by
  have hrun : (execute System.step bystanding (System.init 0x10) overhearSlave).map
      (fun s => publishedPairs s.log) = some [([0xff, 0x08, 0xb5, 0x05, 0x01, 0x27], [0x01, 0x42])] := by
    decide +kernel
  obtain ⟨s, hs, hpublished⟩ := Option.map_eq_some_iff.1 hrun
  obtain ⟨htold, hwrote⟩ := monitor_overhears (run_of_execute bystanding_of_test hs)
  exact ⟨s, hs, htold.symm.trans hpublished, hwrote⟩

end EBusFsm
