import EBusFsm.Lib.Reader
import EBusFsm.Machine.Causal
import EBusFsm.Machine.Framing

/-!
# Reception of malformed telegrams

The receivers read from an endless stream here. The loops count the bytes that are not the expand byte, and
look for nothing else: a stream of expand bytes keeps them reading for ever, and a synchronization byte is
counted like a data byte. `reception_bounded_iff` says on which streams a receiver stops within 39 bytes and
in front of what stands behind a synchronization byte.
-/

namespace EBusFsm

open Prog

/-- The run on the stream comes to an end, with this result and these events. -/
def Ends {α : Type} (x : EbusM α) (w : World) (s : Stream' Byte) (result : Except Stop α)
    (evs : List Event) : Prop :=
  ∃ k, ∀ n, k ≤ n →
    (exec x (w.on (s.take n))).1 = result ∧ (exec x (w.on (s.take n))).2.events = evs

/-- The handler returned or threw. It neither waits for another byte nor dereferenced a null pointer. -/
def Terminated {α : Type} (result : Except Stop α) : Prop :=
  result ≠ .error .starved ∧ result ≠ .error .nullDeref

/-- The bytes of the longest message behind its addresses, every byte that can be escaped being so. -/
def longest : Nat := 39

/-- The handler terminates after at most as many bytes as the longest message has, and takes none behind a
synchronization byte. The echo of the acknowledge byte is not counted. -/
def Contained {α : Type} (x : EbusM α) (w : World) (s : Stream' Byte) : Prop :=
  ∃ result evs, Ends x w s result evs ∧ Terminated result ∧
    (receivedBytes evs).length ≤ longest ∧ seqSyn ∉ (receivedBytes evs).dropLast

/-- Among the first `K` bytes there are `n` that are not the expand byte, and there are as many up to each
synchronization byte of the stream. -/
def Settles (n K : Nat) (s : Stream' Byte) : Prop :=
  n ≤ ebusCode.symbols s K ∧ ∀ i, s.get i = seqSyn → n ≤ ebusCode.symbols s (i + 1)

/-- Neither PB nor SB is a synchronization byte; NN is out of bounds and a message is active, or the data
and the CRC settle in what is left. -/
def MessageSettles (impl : EbusImpl) (s : Stream' Byte) : Prop :=
  s.get 0 ≠ seqSyn ∧ s.get 1 ≠ seqSyn ∧
    ((s.get 2).toNat > seqMaxBytes ∧ impl.activeMessage.isSome = true ∨
      (s.get 2).toNat ≤ seqMaxBytes ∧ Settles ((s.get 2).toNat + 1) (longest - 3) (s.drop 3))

/-- NN is out of bounds, or the data and the CRC settle in what is left. -/
def ResponseSettles (s : Stream' Byte) : Prop :=
  (s.get 0).toNat > seqMaxBytes ∨ Settles ((s.get 0).toNat + 1) (longest - 1) (s.drop 1)

/-- The rest of a message is at most that long. -/
theorem Master.length_remainder_le (m : Master) : m.remainder.length ≤ longest := by
  have hsplit : m.remainder =
      extendBytes [m.pb, m.sb] ++ m.nn :: extendBytes (m.data ++ [m.crc]) := by
    rw [remainder, m.extendBytes_frame, ← extendBytes_cons m.nn_not_reserved, ← extendBytes_append]
    rfl
  have haddress := ebusCode.length_stuff_le [m.pb, m.sb]
  have hdata := ebusCode.length_stuff_le (m.data ++ [m.crc])
  have hbound := m.bound
  rw [hsplit, List.length_append, List.length_cons, extendBytes_eq_stuff, extendBytes_eq_stuff]
  rw [List.length_append] at hdata
  simp only [List.length_cons, List.length_nil] at haddress hdata
  rw [longest]
  rw [seqMaxBytes] at hbound
  omega

/-! ### Runs on a stream -/

theorem ends_of_exec {α : Type} {x : EbusM α} (hx : Causal x) {w w' : World} {s : Stream' Byte} {k : Nat}
    {result : Except Stop α} (hrun : exec x (w.on (s.take k)) = (result, w'))
    (hne : result ≠ .error .starved) : Ends x w s result w'.events := by
  refine ⟨k, fun n hn => ?_⟩
  obtain ⟨rest, hrest⟩ := s.take_prefix_take_left k n hn
  cases hx.cut w (s.take k) rest with
  | done result' w'' l' _ hx' hy =>
    obtain ⟨rfl, rfl⟩ := Prod.mk.inj (hrun.symm.trans hx')
    rw [← hrest, hy]
    exact ⟨rfl, rfl⟩
  | starved w'' hx' =>
    rw [hx'] at hrun
    exact absurd (Prod.mk.inj hrun).1.symm hne

/-- What was taken from a stream is its beginning. -/
theorem eq_take_of_reads {s : Stream' Byte} {n : Nat} {r : List Byte} {rest : List RecvResult}
    (h : (s.take n).map RecvResult.byte = r.map .byte ++ rest) : r = s.take r.length := by
  have hpre : ∃ u, s.take n = r ++ u := by
    rcases byte_prefix (t := []) ((List.append_nil _).trans h) with ⟨u, hu⟩ | ⟨u, hu⟩
    · have hlen := congrArg List.length h
      rw [List.length_map, List.length_append, List.length_map, hu, List.length_append] at hlen
      obtain rfl : u = [] := List.length_eq_zero_iff.1 (by omega)
      exact ⟨[], by rw [hu, List.append_nil, List.append_nil]⟩
    · exact ⟨u, hu⟩
  obtain ⟨u, hu⟩ := hpre
  have hle : r.length ≤ n := by
    have hlen := congrArg List.length hu
    rw [Stream'.length_take, List.length_append] at hlen
    omega
  have htake := congrArg (List.take r.length) hu
  rwa [Stream'.take_take, Nat.min_eq_right hle, List.take_left, eq_comm] at htake

theorem clean_on (env : Env) (l : List Byte) : (env.on l).Clean := by
  refine ⟨fun r hr => ?_, fun r hr => absurd hr List.not_mem_nil⟩
  obtain ⟨b, -, rfl⟩ := List.mem_map.1 hr
  exact ⟨b, rfl⟩

/-- A handler that takes the first `k` bytes exactly when `P k` is contained when `P` holds of a suitable
number. -/
theorem contained_iff {α : Type} {x : EbusM α} {w : World} {s : Stream' Byte} (P : Nat → Prop)
    (hends : ∀ result evs, Ends x w s result evs → Terminated result →
      ∃ k, P k ∧ receivedBytes evs = s.take k)
    (hruns : ∀ k, P k → ∃ result evs, Ends x w s result evs ∧ Terminated result ∧
      receivedBytes evs = s.take k) :
    Contained x w s ↔ ∃ k ≤ longest, P k ∧ seqSyn ∉ (s.take k).dropLast := by
  constructor
  · rintro ⟨result, evs, hrun, hterm, hlen, hsyn⟩
    obtain ⟨k, hk, hevs⟩ := hends result evs hrun hterm
    rw [hevs, Stream'.length_take] at hlen
    exact ⟨k, hlen, hk, hevs ▸ hsyn⟩
  · rintro ⟨k, hlen, hk, hsyn⟩
    obtain ⟨result, evs, hrun, hterm, hevs⟩ := hruns k hk
    refine ⟨result, evs, hrun, hterm, ?_, hevs ▸ hsyn⟩
    rw [hevs, Stream'.length_take]
    exact hlen

/-- A piece on a stream that ends in one of two ways. -/
theorem ends_of_wp {α : Type} {x : EbusM α} (hx : Causal x) {w : World} {s : Stream' Byte} {n k : Nat}
    (hwp : wp x (fun _ w' => receivedBytes w'.events = s.take k)
      (fun e w' => e = .outOfRange ∧ receivedBytes w'.events = s.take k) (w.on (s.take n))) :
    ∃ result evs, Ends x w s result evs ∧ Terminated result ∧ receivedBytes evs = s.take k := by
  rw [wp_def] at hwp
  rcases hrun : exec x (w.on (s.take n)) with ⟨e | a, w'⟩
  · obtain ⟨rfl, hevs⟩ := hwp.2 e w' hrun
    exact ⟨_, _, ends_of_exec hx hrun nofun, ⟨nofun, nofun⟩, hevs⟩
  · exact ⟨_, _, ends_of_exec hx hrun nofun, ⟨nofun, nofun⟩, hwp.1 a w' hrun⟩

/-- What a piece on a stream has taken when it ends. -/
theorem exists_of_ends {α : Type} {x : EbusM α} {w : World} {s : Stream' Byte} {P : Nat → Prop}
    {result : Except Stop α} {evs : List Event} (hends : Ends x w s result evs)
    (hterm : Terminated result)
    (hwp : ∀ n, wp x (fun _ w' => ∃ k, P k ∧ receivedBytes w'.events = s.take k)
      (fun e w' => e ≠ .starved → e ≠ .nullDeref → ∃ k, P k ∧ receivedBytes w'.events = s.take k)
      (w.on (s.take n))) : ∃ k, P k ∧ receivedBytes evs = s.take k := by
  obtain ⟨n, hn⟩ := hends
  obtain ⟨hresult, hevs⟩ := hn n le_rfl
  rcases hrun : exec x (w.on (s.take n)) with ⟨e | a, w'⟩
  · rw [hrun] at hresult hevs
    rw [← hevs]
    refine wp_error (hwp n) hrun (fun he => hterm.1 ?_) fun he => hterm.2 ?_
    · rw [← hresult, he]
    · rw [← hresult, he]
  · rw [hrun] at hevs
    rw [← hevs]
    exact wp_ok (hwp n) hrun

/-! ### `receiveMessage` -/

/-- `receiveMessage` stops behind the first `k` bytes: they complete a message, or the last one is a size
byte out of bounds. -/
def MessageEnds (impl : EbusImpl) (qq zz : Byte) (s : Stream' Byte) (k : Nat) : Prop :=
  Framed (qq :: zz :: s.take k) ∨
    k = 3 ∧ (s.get 2).toNat > seqMaxBytes ∧ impl.activeMessage.isSome = true

theorem receivedBytes_resetEvents (message : Option Message) : receivedBytes (resetEvents message) = [] := by
  cases message with
  | none => rfl
  | some message => rfl

/-- `receiveMessage` on a stream. -/
theorem wp_receiveMessage_stream {impl : EbusImpl} (env : Env) {qq zz : Byte} (s : Stream' Byte) (n : Nat)
    (hseq : impl.sequence = ⟨[qq, zz], true⟩) :
    wp receiveMessage (fun _ w' => ∃ k, MessageEnds impl qq zz s k ∧ receivedBytes w'.events = s.take k)
      (fun e w' => e ≠ .starved → e ≠ .nullDeref →
        ∃ k, MessageEnds impl qq zz s k ∧ receivedBytes w'.events = s.take k)
      (({ impl, env } : World).on (s.take n)) := by
  have hframed : ∀ {r evs w'}, Framed (qq :: zz :: r) →
      Adv (({ impl, env } : World).on (s.take n)) w' (r.map .got ++ evs) →
      ∃ k, MessageEnds impl qq zz s k ∧ r = s.take k := by
    intro r evs w' hr ha
    have heq := eq_take_of_reads ha.reads_got
    rw [heq] at hr
    exact ⟨r.length, .inl hr, heq⟩
  refine wp_receiveMessage _ _ _ hseq ?_ ?_ ?_ ?_ ?_ ?_
  · intro r w' hr _ ha _ _
    rw [← List.append_nil (r.map Event.got)] at ha
    obtain ⟨k, hk, heq⟩ := hframed hr ha
    refine ⟨k, hk, ?_⟩
    rw [← heq]
    exact ha.received_events rfl rfl
  · exact fun _ _ _ _ _ _ _ _ h => absurd rfl h
  · intro pb sb nn message w' hnn ha hm _
    have ha' : Adv (({ impl, env } : World).on (s.take n)) w' ([pb, sb, nn].map .got ++ []) := ha
    have heq : [pb, sb, nn] = s.take 3 := eq_take_of_reads ha'.reads_got
    have hget : nn = s.get 2 := Option.some_inj.1 (congrArg (·[2]?) heq)
    have hactive : impl.activeMessage = some message := hm
    refine ⟨3, .inr ⟨rfl, hget ▸ hnn, by rw [hactive]; rfl⟩, ?_⟩
    rw [← heq]
    exact ha'.received rfl (receivedBytes_resetEvents _)
  · intro r m stored seq evs w' hr _ hevs ha _ _
    obtain ⟨k, hk, heq⟩ := hframed hr ha
    refine ⟨k, hk, ?_⟩
    rw [← heq]
    exact ha.received rfl (hevs.received stored)
  · intro r evs w' hr _ hevs ha _
    obtain ⟨k, hk, heq⟩ := hframed hr ha
    refine ⟨k, hk, ?_⟩
    rw [← heq]
    refine ha.received_events rfl ?_
    rcases hevs with rfl | ⟨x, rfl⟩ <;> rfl
  · intro e w' evs h _ hne
    exact absurd (clean_on env (s.take n)) (h.fault hne)

/-- On a stream every write succeeds, and the echo can be read. -/
theorem AckStopped.not_on {w w' : World} {l r reads : List Byte} {x : Byte} {evs : List Event} {e : Stop}
    (h : AckStopped l (w.on reads).env.sends evs) (hhalt : Halt (w.on reads) e w' (r.map .got ++ evs))
    (hreads : (w.on reads).env.reads = r.map .byte ++ [.byte x]) : False := by
  cases h with
  | refused hno => exact hno rfl
  | ack => exact hhalt.not_acked hreads rfl
  | nak => exact hhalt.not_acked hreads rfl

theorem map_take_succ (s : Stream' Byte) (k : Nat) :
    (s.take (k + 1)).map RecvResult.byte = (s.take k).map .byte ++ [.byte (s.get k)] := by
  rw [Stream'.take_succ', List.map_append]
  rfl

/-- A message on the stream is read, and so is a size byte out of bounds. -/
theorem MessageEnds.ends {impl : EbusImpl} (env : Env) {qq zz : Byte} {s : Stream' Byte} {k : Nat}
    (hseq : impl.sequence = ⟨[qq, zz], true⟩) (h : MessageEnds impl qq zz s k) :
    ∃ result evs, Ends receiveMessage { impl, env } s result evs ∧ Terminated result ∧
      receivedBytes evs = s.take k := by
  rcases h with hr | ⟨rfl, hnn, hactive⟩
  · refine ends_of_wp (n := k + 1) causal_receiveMessage ?_
    have hreads := map_take_succ s k
    refine wp_receiveMessage_framed _ _ _ hseq hr hreads ?_ ?_ ?_ ?_
    · intro w' _ ha
      rw [← List.append_nil ((s.take k).map Event.got)] at ha
      exact ⟨rfl, ha.received_events rfl rfl⟩
    · intro m stored seq evs w' _ hevs ha _ _
      exact ha.received rfl (hevs.received stored)
    · intro evs w' _ hevs ha
      refine ha.received_events rfl ?_
      rcases hevs with rfl | ⟨x, rfl⟩ <;> rfl
    · intro e w' evs hhalt hstop
      exact (hstop.not_on hhalt hreads).elim
  · refine ends_of_wp (n := 3) causal_receiveMessage ?_
    obtain ⟨message, hmessage⟩ := Option.isSome_iff_exists.1 hactive
    have hreads : (s.take 3).map RecvResult.byte =
        .byte (s.get 0) :: .byte (s.get 1) :: .byte (s.get 2) :: [] := rfl
    refine wp_receiveMessage_oversize _ _ _ hseq hreads hnn hmessage fun w' hevs => ?_
    show receivedBytes (w'.events ++ _) = _
    rw [hevs]
    show receivedBytes ((s.take 3).map .got ++ _) = _
    rw [receivedBytes_append, receivedBytes_resetEvents, List.append_nil]

/-! ### The condition of `receiveMessage` -/

theorem not_mem_dropLast_cons {α : Type} {a b : α} {l : List α} (hl : l ≠ []) :
    a ∉ (b :: l).dropLast ↔ b ≠ a ∧ a ∉ l.dropLast := by
  rw [List.dropLast_cons_of_ne_nil hl, List.mem_cons, not_or, ne_comm]

theorem messageEnds_iff (impl : EbusImpl) (qq zz : Byte) (s : Stream' Byte) :
    (∃ k ≤ longest, MessageEnds impl qq zz s k ∧ seqSyn ∉ (s.take k).dropLast) ↔
      MessageSettles impl s := by
  have htake : ∀ k, s.take (k + 3) = s.get 0 :: s.get 1 :: s.get 2 :: (s.drop 3).take k := fun _ => rfl
  have hsyn_iff : ∀ {k}, (s.drop 3).take k ≠ [] → (seqSyn ∉ (s.take (k + 3)).dropLast ↔
      s.get 0 ≠ seqSyn ∧ s.get 1 ≠ seqSyn ∧ s.get 2 ≠ seqSyn ∧ seqSyn ∉ ((s.drop 3).take k).dropLast) := by
    intro k hne
    rw [htake, not_mem_dropLast_cons (List.cons_ne_nil _ _), not_mem_dropLast_cons (List.cons_ne_nil _ _),
      not_mem_dropLast_cons hne]
  have hsettles := EscapeCode.exists_counted_iff (c := ebusCode) (s.drop 3) (s.get 2).toNat (longest - 3)
  have hlongest : longest = 39 := rfl
  constructor
  · rintro ⟨k, hk, hr | ⟨rfl, hnn, hactive⟩, hsyn⟩
    · obtain ⟨j, rfl⟩ : ∃ j, k = j + 3 := by
        obtain ⟨_, _, pb, sb, nn, l, hl⟩ := hr.header
        have hlen := congrArg List.length hl
        simp only [List.length_cons, Stream'.length_take] at hlen
        exact ⟨k - 3, by omega⟩
      rw [htake, framed_iff_counted] at hr
      obtain ⟨h0, h1, -, hsyn⟩ := (hsyn_iff hr.2.ne_nil).1 hsyn
      exact ⟨h0, h1, .inr ⟨hr.1, hsettles.1 ⟨j, by omega, hr.2, hsyn⟩⟩⟩
    · have htwo : (s.take 3).dropLast = [s.get 0, s.get 1] := rfl
      rw [htwo] at hsyn
      simp only [List.mem_cons, List.not_mem_nil, or_false, not_or] at hsyn
      exact ⟨Ne.symm hsyn.1, Ne.symm hsyn.2, .inl ⟨hnn, hactive⟩⟩
  · rintro ⟨h0, h1, ⟨hnn, hactive⟩ | ⟨hnn, hset⟩⟩
    · refine ⟨3, by decide, .inr ⟨rfl, hnn, hactive⟩, ?_⟩
      have htwo : (s.take 3).dropLast = [s.get 0, s.get 1] := rfl
      rw [htwo]
      simp only [List.mem_cons, List.not_mem_nil, or_false, not_or]
      exact ⟨h0.symm, h1.symm⟩
    · obtain ⟨j, hj, hcount, hsyn⟩ := hsettles.2 hset
      refine ⟨j + 3, by omega, .inl ?_, (hsyn_iff hcount.ne_nil).2 ⟨h0, h1, ?_, hsyn⟩⟩
      · rw [htake, framed_iff_counted]
        exact ⟨hnn, hcount⟩
      · exact fun h => not_reserved_of_le hnn (.inl h)

theorem receiveMessage_contained_iff {impl : EbusImpl} (env : Env) {qq zz : Byte} (s : Stream' Byte)
    (hseq : impl.sequence = ⟨[qq, zz], true⟩) :
    Contained receiveMessage { impl, env } s ↔ MessageSettles impl s := by
  rw [← messageEnds_iff impl qq zz s]
  refine contained_iff (MessageEnds impl qq zz s) (fun result evs hends hterm => ?_)
    fun k hk => hk.ends env hseq
  exact exists_of_ends hends hterm fun n => wp_receiveMessage_stream env s n hseq

/-! ### An attempt of `receiveResponse` -/

/-- An attempt stops behind the first `k` bytes: they complete a response, or there is one, a size byte out
of bounds. -/
def AttemptEnds (s : Stream' Byte) (k : Nat) : Prop :=
  Response (s.take k) ∨ k = 1 ∧ (s.get 0).toNat > seqMaxBytes

/-- An attempt on a stream. -/
theorem wp_receiveAttempt_stream (retry : Nat) {impl : EbusImpl} (env : Env) {message : Message}
    (s : Stream' Byte) (n : Nat) (hmessage : impl.activeMessage = some message) :
    wp (receiveAttempt retry) (fun _ w' => ∃ k, AttemptEnds s k ∧ receivedBytes w'.events = s.take k)
      (fun e w' => e ≠ .starved → e ≠ .nullDeref →
        ∃ k, AttemptEnds s k ∧ receivedBytes w'.events = s.take k)
      (({ impl, env } : World).on (s.take n)) := by
  have hresponse : ∀ {raw evs w'}, Response raw →
      Adv (({ impl, env } : World).on (s.take n)) w' (raw.map .got ++ evs) →
      receivedBytes evs = [] → ∃ k, AttemptEnds s k ∧ receivedBytes w'.events = s.take k := by
    intro raw evs w' hraw ha hevs
    have heq := eq_take_of_reads ha.reads_got
    refine ⟨raw.length, .inl (heq ▸ hraw), ?_⟩
    rw [← heq]
    exact ha.received_events rfl hevs
  refine wp_receiveAttempt retry _ _ _ hmessage ?_ ?_ ?_ ?_
  · intro nn w' hnn ha _
    have ha' : Adv (({ impl, env } : World).on (s.take n)) w' ([nn].map .got ++ []) := ha
    have heq : [nn] = s.take 1 := eq_take_of_reads ha'.reads_got
    have hget : nn = s.get 0 := (List.cons.inj heq).1
    refine ⟨1, .inr ⟨rfl, hget ▸ hnn⟩, ?_⟩
    rw [← heq]
    exact ha'.received rfl (receivedBytes_resetEvents _)
  · intro raw s' stored x w' hraw _ ha _
    exact hresponse hraw ha rfl
  · intro evs slave nn crc e w' hrej ha _
    cases hrej with
    | intro hraw => exact hresponse hraw ha rfl
  · intro e w' evs h _ hne
    exact absurd (clean_on env (s.take n)) (h.fault hne)

/-- A response on the stream is read, and so is a size byte out of bounds. -/
theorem AttemptEnds.ends (retry : Nat) {impl : EbusImpl} (env : Env) {message : Message}
    {s : Stream' Byte} {k : Nat} (hmessage : impl.activeMessage = some message) (h : AttemptEnds s k) :
    ∃ result evs, Ends (receiveAttempt retry) { impl, env } s result evs ∧ Terminated result ∧
      receivedBytes evs = s.take k := by
  rcases h with hraw | ⟨rfl, hnn⟩
  · refine ends_of_wp (n := k + 1) (causal_receiveAttempt retry) ?_
    have hreads := map_take_succ s k
    have hreceived : ∀ {raw evs w'}, Response raw →
        Adv (({ impl, env } : World).on (s.take (k + 1))) w' (raw.map .got ++ evs) →
        receivedBytes evs = [] → receivedBytes w'.events = s.take k := by
      intro raw evs w' hraw' ha hevs
      obtain ⟨rfl, -⟩ := hraw.byte_inj hraw' hreads ha.reads_got
      exact ha.received_events rfl hevs
    refine wp_receiveAttempt retry _ _ _ hmessage ?_ ?_ ?_ ?_
    · intro nn w' hnn ha _
      exact absurd (hraw.head_le hreads ha.reads) (Nat.not_le_of_gt hnn)
    · intro raw s' stored x w' hraw' _ ha _
      exact hreceived hraw' ha rfl
    · intro evs slave nn crc e w' hrej ha _
      cases hrej with
      | intro hraw' => exact hreceived hraw' ha rfl
    · intro e w' evs hhalt hstop
      cases hstop with
      | reading r hun hdry => exact absurd hraw (hdry.not_prefix hun hreads)
      | acking hraw' hreads' hstop =>
        obtain ⟨rfl, rfl⟩ := hraw.byte_inj hraw' hreads hreads'
        cases hstop with
        | refused hno => exact absurd rfl hno
        | ack => exact (hhalt.not_acked hreads' rfl).elim
        | nak => exact (hhalt.not_acked hreads' rfl).elim
  · refine ends_of_wp (n := 1) (causal_receiveAttempt retry) ?_
    have hreads : (s.take 1).map RecvResult.byte = .byte (s.get 0) :: [] := rfl
    refine wp_receiveAttempt_oversize retry _ _ _ hreads hnn hmessage fun w' hevs => ?_
    show receivedBytes (w'.events ++ _) = _
    rw [hevs]
    show receivedBytes ((s.take 1).map .got ++ _) = _
    rw [receivedBytes_append, receivedBytes_resetEvents, List.append_nil]

theorem attemptEnds_iff (s : Stream' Byte) :
    (∃ k ≤ longest, AttemptEnds s k ∧ seqSyn ∉ (s.take k).dropLast) ↔ ResponseSettles s := by
  have htake : ∀ k, s.take (k + 1) = s.get 0 :: (s.drop 1).take k := fun _ => rfl
  have hsettles := EscapeCode.exists_counted_iff (c := ebusCode) (s.drop 1) (s.get 0).toNat (longest - 1)
  have hresponse : ∀ k, Response (s.take (k + 1)) ↔ (s.get 0).toNat ≤ seqMaxBytes ∧
      ebusCode.Counted ((s.get 0).toNat + 1) ((s.drop 1).take k) := by
    intro k
    rw [htake]
    constructor
    · intro h
      cases h with
      | intro _ hnn hr => exact ⟨hnn, hr⟩
    · exact fun h => .intro _ h.1 h.2
  have hlongest : longest = 39 := rfl
  constructor
  · rintro ⟨k, hk, hraw | ⟨rfl, hnn⟩, hsyn⟩
    · cases k with
      | zero => exact nomatch hraw
      | succ k =>
        rw [hresponse] at hraw
        rw [htake, not_mem_dropLast_cons hraw.2.ne_nil] at hsyn
        exact .inr (hsettles.1 ⟨k, by omega, hraw.2, hsyn.2⟩)
    · exact .inl hnn
  · intro hsettled
    by_cases hnn : (s.get 0).toNat > seqMaxBytes
    · exact ⟨1, by decide, .inr ⟨rfl, hnn⟩, List.not_mem_nil⟩
    · have hle : (s.get 0).toNat ≤ seqMaxBytes := Nat.le_of_not_lt hnn
      obtain ⟨k, hk, hcount, hsyn⟩ := hsettles.2 (hsettled.resolve_left hnn)
      refine ⟨k + 1, by omega, .inl ((hresponse k).2 ⟨hle, hcount⟩), ?_⟩
      rw [htake, not_mem_dropLast_cons hcount.ne_nil]
      exact ⟨fun h => not_reserved_of_le hle (.inl h), hsyn⟩

theorem receiveAttempt_contained_iff (retry : Nat) {impl : EbusImpl} (env : Env) {message : Message}
    (s : Stream' Byte) (hmessage : impl.activeMessage = some message) :
    Contained (receiveAttempt retry) { impl, env } s ↔ ResponseSettles s := by
  rw [← attemptEnds_iff s]
  refine contained_iff (AttemptEnds s) (fun result evs hends hterm => ?_)
    fun k hk => hk.ends retry env hmessage
  exact exists_of_ends hends hterm fun n => wp_receiveAttempt_stream retry env s n hmessage

/-- **A receiver stops within 39 bytes and in front of what stands behind a synchronization byte, exactly
when its stream has enough bytes that are not the expand byte in time.** -/
theorem reception_bounded_iff (impl : EbusImpl) (env : Env) (s : Stream' Byte) :
    (∀ qq zz : Byte, impl.sequence = ⟨[qq, zz], true⟩ →
      (Contained receiveMessage { impl, env } s ↔ MessageSettles impl s)) ∧
    (∀ (message : Message) (retry : Nat), impl.activeMessage = some message →
      (Contained (receiveAttempt retry) { impl, env } s ↔ ResponseSettles s)) := by
  constructor
  · intro qq zz hseq
    exact receiveMessage_contained_iff env s hseq
  · intro message retry hmessage
    exact receiveAttempt_contained_iff retry env s hmessage

/-- One data byte follows `1004b50501`, and none a response with NN = 0. -/
theorem reception_bounded_sample :
    Contained receiveMessage { impl := receivingImpl, env := {} }
        ([0xb5, 0x05, 0x01] ++ₛ Stream'.const 0x27) ∧
      Contained (receiveAttempt 1) { impl := receivingImpl, env := {} } (Stream'.const 0x00) := by
  constructor
  · refine ((reception_bounded_iff _ _ _).1 0x10 0x04 rfl).2 ?_
    refine ⟨by decide, by decide, .inr ⟨by decide, by decide, fun i hi => ?_⟩⟩
    have hbyte : (0x27 : Byte) = seqSyn := hi
    exact absurd hbyte (by decide)
  · refine ((reception_bounded_iff _ _ _).2 _ 1 rfl).2 (.inr ⟨by decide, fun i hi => ?_⟩)
    have hbyte : (0x00 : Byte) = seqSyn := hi
    exact absurd hbyte (by decide)

/-- Behind `1004b50500` the bus carries the expand byte only, and behind `1004b50502`, a message that was
broken off, the synchronization byte only. -/
theorem reception_unbounded_sample :
    (¬ Contained receiveMessage { impl := receivingImpl, env := {} }
      ([0xb5, 0x05, 0x00] ++ₛ Stream'.const seqExp)) ∧
    ¬ Contained receiveMessage { impl := receivingImpl, env := {} }
      ([0xb5, 0x05, 0x02] ++ₛ Stream'.const seqSyn) := by
  constructor
  · rw [receiveMessage_contained_iff _ _ rfl]
    rintro ⟨-, -, ⟨hnn, -⟩ | ⟨-, henough, -⟩⟩
    · exact absurd hnn (by decide)
    · exact absurd henough (by decide)
  · rw [receiveMessage_contained_iff _ _ rfl]
    rintro ⟨-, -, ⟨hnn, -⟩ | ⟨-, -, hsyn⟩⟩
    · exact absurd hnn (by decide)
    · exact absurd (hsyn 0 rfl) (by decide)

end EBusFsm
