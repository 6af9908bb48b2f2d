import EBusFsm.Machine.Handlers

/-!
# What the handlers do on the wire

The rules for the access to the members and for the device, and with them one lemma for each piece of
a handler that only reads and writes bytes. `Adv w w' evs` says that a piece returned: it left the
events `evs`, which are bytes on the wire only, and consumed the answers that belong to them.
`Halt w e w' evs` says that the device stopped it. Both keep the members that a piece does not own
(`EbusImpl.shell`).

`Echoed l evs` are the events of writing `l` byte by byte with the echo read back; the bytes that a
counting loop takes from the stream are those of `EscapeCode.Counted`.
-/

namespace EBusFsm

/-! ### Events on the wire -/

def Event.onWire : Event → Bool
  | .wrote _ => true
  | .got _ => true
  | _ => false

def Quiet (evs : List Event) : Prop := ∀ e ∈ evs, e.onWire = true

/-- The bytes read, in order. -/
def gotBytes (evs : List Event) : List Byte :=
  evs.filterMap fun e => match e with | .got b => some b | _ => none

/-- The bytes written, in order. -/
def wroteBytes (evs : List Event) : List Byte :=
  evs.filterMap fun e => match e with | .wrote b => some b | _ => none

@[simp] theorem quiet_nil : Quiet [] := fun _ h => nomatch h

@[simp] theorem quiet_append (l r : List Event) : Quiet (l ++ r) ↔ Quiet l ∧ Quiet r := by
  simp only [Quiet, List.mem_append]
  exact ⟨fun h => ⟨fun e he => h e (.inl he), fun e he => h e (.inr he)⟩,
    fun h e he => he.elim (h.1 e) (h.2 e)⟩

@[simp] theorem quiet_cons (e : Event) (l : List Event) :
    Quiet (e :: l) ↔ e.onWire = true ∧ Quiet l := by
  simp [Quiet]

@[simp] theorem quiet_map_got (l : List Byte) : Quiet (l.map .got) := by
  intro e he
  obtain ⟨b, -, rfl⟩ := List.mem_map.1 he
  rfl

@[simp] theorem gotBytes_append (l r : List Event) :
    gotBytes (l ++ r) = gotBytes l ++ gotBytes r := List.filterMap_append

@[simp] theorem wroteBytes_append (l r : List Event) :
    wroteBytes (l ++ r) = wroteBytes l ++ wroteBytes r := List.filterMap_append

@[simp] theorem gotBytes_nil : gotBytes [] = [] := rfl

@[simp] theorem wroteBytes_nil : wroteBytes [] = [] := rfl

@[simp] theorem gotBytes_got (b : Byte) (l : List Event) :
    gotBytes (.got b :: l) = b :: gotBytes l := rfl

@[simp] theorem gotBytes_wrote (b : Byte) (l : List Event) :
    gotBytes (.wrote b :: l) = gotBytes l := rfl

@[simp] theorem wroteBytes_got (b : Byte) (l : List Event) :
    wroteBytes (.got b :: l) = wroteBytes l := rfl

@[simp] theorem wroteBytes_wrote (b : Byte) (l : List Event) :
    wroteBytes (.wrote b :: l) = b :: wroteBytes l := rfl

@[simp] theorem gotBytes_map_got (l : List Byte) : gotBytes (l.map .got) = l := by
  induction l with
  | nil => rfl
  | cons b l ih => rw [List.map_cons, gotBytes_got, ih]

@[simp] theorem wroteBytes_map_got (l : List Byte) : wroteBytes (l.map .got) = [] := by
  induction l with
  | nil => rfl
  | cons b l ih => rw [List.map_cons, wroteBytes_got, ih]

/-- `l` was written byte by byte, and after each byte one byte was read. -/
inductive Echoed : List Byte → List Event → Prop
  | nil : Echoed [] []
  | cons (b x : Byte) {l : List Byte} {evs : List Event} (h : Echoed l evs) :
      Echoed (b :: l) (.wrote b :: .got x :: evs)

theorem Echoed.append {l r : List Byte} {evs evs' : List Event} (hl : Echoed l evs)
    (hr : Echoed r evs') : Echoed (l ++ r) (evs ++ evs') := by
  induction hl with
  | nil => exact hr
  | cons b x _ ih => exact .cons b x ih

theorem Echoed.wrote {l : List Byte} {evs : List Event} (h : Echoed l evs) : wroteBytes evs = l := by
  induction h with
  | nil => rfl
  | cons b x _ ih => rw [wroteBytes_wrote, wroteBytes_got, ih]

theorem Echoed.got_length {l : List Byte} {evs : List Event} (h : Echoed l evs) :
    (gotBytes evs).length = l.length := by
  induction h with
  | nil => rfl
  | cons b x _ ih => rw [gotBytes_wrote, gotBytes_got, List.length_cons, List.length_cons, ih]

/-! ### Members that a piece does not own -/

/-- What does not change between the start and the end of a `transmit` call. -/
def Message.core (message : Message) : Message :=
  { message with
    state := 0
    telegram :=
      { message.telegram with
        slaveACK := 0, slave := {}, slaveNN := 0, slaveCRC := 0, slaveState := 0, masterACK := 0 } }

def EbusImpl.shell (impl : EbusImpl) : EbusImpl :=
  { impl with
    deviceOpen := false
    lockCounter := 0
    openCounter := 0
    sequence := {}
    activeMessage := impl.activeMessage.map Message.core
    passiveMessage := none }

/-- A piece returned. -/
structure Adv (w w' : World) (evs : List Event) : Prop where
  quiet : Quiet evs
  events : w'.events = w.events ++ evs
  shell : w'.impl.shell = w.impl.shell
  reads : w.env.reads = (gotBytes evs).map .byte ++ w'.env.reads
  sends : w'.env.sends = w.env.sends.drop (wroteBytes evs).length
  sent : ∀ r ∈ w.env.sends.take (wroteBytes evs).length, r = .ok
  opens : w'.env.opens = w.env.opens
  reaction : w'.env.reaction = w.env.reaction
  response : w'.env.response = w.env.response
  opened : w.impl.deviceOpen = true → w'.impl.deviceOpen = true

/-- After the bytes `l` the device has no byte to read. -/
def Dry (reads : List RecvResult) (l : List Byte) : Prop :=
  ∃ rest, reads = l.map .byte ++ rest ∧ ∀ b rest', rest ≠ .byte b :: rest'

/-- The device answers every read with a byte and accepts every write. -/
def Env.Clean (env : Env) : Prop :=
  (∀ r ∈ env.reads, ∃ b, r = .byte b) ∧ ∀ r ∈ env.sends, r = .ok

/-- A test for `Env.Clean` that allows no answers to writes. -/
def Env.clean (env : Env) : Bool :=
  env.reads.all (fun r => match r with | .byte _ => true | _ => false) && env.sends.isEmpty

theorem Env.clean_spec {env : Env} (h : env.clean = true) : env.Clean := by
  unfold Env.clean at h
  rw [Bool.and_eq_true, List.all_eq_true, List.isEmpty_iff] at h
  refine ⟨fun r hr => ?_, fun r hr => ?_⟩
  · have hbyte := h.1 r hr
    cases r with
    | byte b => exact ⟨b, rfl⟩
    | _ => exact nomatch hbyte
  · rw [h.2] at hr
    exact absurd hr List.not_mem_nil

/-- The answer is a `runtime_warning`. -/
def RecvResult.Warns (r : RecvResult) : Prop := r = .timeout ∨ r = .eof

/-- The answer is another `runtime_error`. -/
def RecvResult.Fails (r : RecvResult) : Prop := r = .invalid ∨ r = .pollError ∨ r = .readError

/-- The device answers no read with a warning. -/
def Env.Timely (env : Env) : Prop := ∀ r ∈ env.reads, ¬ r.Warns

/-- The device answers no read and no write with an error. -/
def Env.Faultless (env : Env) : Prop := (∀ r ∈ env.reads, ¬ r.Fails) ∧ ∀ r ∈ env.sends, r = .ok

/-- The device stopped a piece: it had no byte to read, or refused a write. -/
structure Halt (w : World) (e : Stop) (w' : World) (evs : List Event) : Prop where
  device : e = .warning ∨ e = .error ∨ e = .starved
  quiet : Quiet evs
  events : w'.events = w.events ++ evs
  shell : w'.impl.shell = w.impl.shell
  cause : Dry w.env.reads (gotBytes evs) ∨
    (w.env.sends.drop (wroteBytes evs).length).headD .ok ≠ .ok
  warned : e = .warning → ¬ w.env.Timely
  failed : e = .error → ¬ w.env.Faultless
  /-- A warning does not close the device. -/
  opened : e = .warning → w.impl.deviceOpen = true → w'.impl.deviceOpen = true

/-- The device stopped a piece while it read. -/
structure Starve (w : World) (e : Stop) (w' : World) (evs : List Event) : Prop
    extends Halt w e w' evs where
  dry : Dry w.env.reads (gotBytes evs)

theorem Env.Clean.timely {env : Env} (h : env.Clean) : env.Timely := by
  intro r hr hwarns
  obtain ⟨b, rfl⟩ := h.1 r hr
  simp [RecvResult.Warns] at hwarns

theorem Env.Clean.faultless {env : Env} (h : env.Clean) : env.Faultless := by
  refine ⟨fun r hr hfails => ?_, h.2⟩
  obtain ⟨b, rfl⟩ := h.1 r hr
  simp [RecvResult.Fails] at hfails

theorem Halt.fault {w w' : World} {e : Stop} {evs : List Event} (h : Halt w e w' evs)
    (he : e ≠ .starved) : ¬ w.env.Clean := by
  intro hclean
  rcases h.device with hwarning | herror | hstarved
  · exact h.warned hwarning hclean.timely
  · exact h.failed herror hclean.faultless
  · exact he hstarved

theorem Adv.refl (w : World) : Adv w w [] :=
  ⟨quiet_nil, by simp, rfl, by simp, by simp, by simp, rfl, rfl, rfl, id⟩

theorem Adv.trans {w w₁ w₂ : World} {evs evs' : List Event} (h : Adv w w₁ evs)
    (h' : Adv w₁ w₂ evs') : Adv w w₂ (evs ++ evs') where
  quiet := (quiet_append _ _).2 ⟨h.quiet, h'.quiet⟩
  events := by rw [h'.events, h.events, List.append_assoc]
  shell := h'.shell.trans h.shell
  reads := by rw [h.reads, h'.reads]; simp
  sends := by rw [h'.sends, h.sends, List.drop_drop]; simp
  sent := by
    intro r hr
    rw [wroteBytes_append, List.length_append, List.take_add, List.mem_append, ← h.sends] at hr
    exact hr.elim (h.sent r) (h'.sent r)
  opens := h'.opens.trans h.opens
  reaction := h'.reaction.trans h.reaction
  response := h'.response.trans h.response
  opened hopen := h'.opened (h.opened hopen)

theorem Adv.reads_got {w w' : World} {evs : List Event} {r : List Byte}
    (h : Adv w w' (r.map .got ++ evs)) :
    w.env.reads = r.map .byte ++ ((gotBytes evs).map .byte ++ w'.env.reads) := by
  rw [h.reads, gotBytes_append, gotBytes_map_got, List.map_append, List.append_assoc]

theorem Adv.dry {w w₁ : World} {evs evs' : List Event} (h : Adv w w₁ evs)
    (h' : Dry w₁.env.reads (gotBytes evs')) : Dry w.env.reads (gotBytes (evs ++ evs')) := by
  obtain ⟨rest, hr, hno⟩ := h'
  refine ⟨rest, ?_, hno⟩
  rw [h.reads, hr]
  simp

theorem Adv.mem_reads {w w₁ : World} {evs : List Event} (h : Adv w w₁ evs) {r : RecvResult}
    (hr : r ∈ w₁.env.reads) : r ∈ w.env.reads := by
  rw [h.reads]
  exact List.mem_append_right _ hr

theorem Adv.mem_sends {w w₁ : World} {evs : List Event} (h : Adv w w₁ evs) {r : SendResult}
    (hr : r ∈ w₁.env.sends) : r ∈ w.env.sends := by
  rw [h.sends] at hr
  exact List.mem_of_mem_drop hr

theorem Adv.halt {w w₁ w₂ : World} {evs evs' : List Event} {e : Stop} (h : Adv w w₁ evs)
    (h' : Halt w₁ e w₂ evs') : Halt w e w₂ (evs ++ evs') where
  device := h'.device
  quiet := (quiet_append _ _).2 ⟨h.quiet, h'.quiet⟩
  events := by rw [h'.events, h.events, List.append_assoc]
  shell := h'.shell.trans h.shell
  cause := by
    rcases h'.cause with hdry | hno
    · exact .inl (h.dry hdry)
    · rw [h.sends, List.drop_drop] at hno
      rw [wroteBytes_append, List.length_append]
      exact .inr hno
  warned he htimely := h'.warned he fun r hr => htimely r (h.mem_reads hr)
  failed he hfaultless :=
    h'.failed he ⟨fun r hr => hfaultless.1 r (h.mem_reads hr), fun r hr => hfaultless.2 r (h.mem_sends hr)⟩
  opened he hopen := h'.opened he (h.opened hopen)

theorem Adv.starve {w w₁ w₂ : World} {evs evs' : List Event} {e : Stop} (h : Adv w w₁ evs)
    (h' : Starve w₁ e w₂ evs') : Starve w e w₂ (evs ++ evs') :=
  { h.halt h'.toHalt with dry := h.dry h'.dry }

/-- A change of the members that a piece owns. -/
theorem Adv.modify (w : World) (impl : EbusImpl) (h : impl.shell = w.impl.shell)
    (hopen : w.impl.deviceOpen = true → impl.deviceOpen = true) : Adv w { w with impl } [] :=
  ⟨quiet_nil, by simp, h, by simp, by simp, by simp, rfl, rfl, rfl, hopen⟩

theorem Adv.sequence (w : World) (seq : Sequence) :
    Adv w { w with impl := { w.impl with sequence := seq } } [] :=
  .modify w _ rfl id

/-! ### Rules -/

open Prog

section Rules

variable {α : Type} (Q : α → World → Prop) (E : Stop → World → Prop) (w : World)

@[simp] theorem wp_getImpl (Q : EbusImpl → World → Prop) : wp getImpl Q E w ↔ Q w.impl w := Iff.rfl

@[simp] theorem wp_modifyImpl (Q : PUnit → World → Prop) (f : EbusImpl → EbusImpl) :
    wp (modifyImpl f) Q E w ↔ Q ⟨⟩ { w with impl := f w.impl } := Iff.rfl

@[simp] theorem wp_emit (Q : PUnit → World → Prop) (e : Event) :
    wp (emit e) Q E w ↔ Q ⟨⟩ { w with events := w.events ++ [e] } := Iff.rfl

@[simp] theorem wp_setSequence (Q : PUnit → World → Prop) (seq : Sequence) :
    wp (setSequence seq) Q E w ↔ Q ⟨⟩ { w with impl := { w.impl with sequence := seq } } := Iff.rfl

@[simp] theorem wp_setActive (Q : PUnit → World → Prop) (message : Message) :
    wp (setActive message) Q E w ↔
      Q ⟨⟩ { w with impl := { w.impl with activeMessage := some message } } := Iff.rfl

@[simp] theorem wp_liftRange_ok (a : α) : wp (liftRange (.ok a)) Q E w ↔ Q a w := Iff.rfl

@[simp] theorem wp_deref_some (Q : Message → World → Prop) (message : Message) :
    wp (deref (some message)) Q E w ↔ Q message w := Iff.rfl

@[simp] theorem wp_deref_none (Q : Message → World → Prop) :
    wp (deref none) Q E w ↔ E .nullDeref w := Iff.rfl

end Rules

/-- The world after `b` was read. -/
def World.got (w : World) (b : Byte) : World :=
  { w with env := { w.env with reads := w.env.reads.tail }, events := w.events ++ [.got b] }

/-- The world after `b` was written. -/
def World.wrote (w : World) (b : Byte) : World :=
  { w with env := { w.env with sends := w.env.sends.tail }, events := w.events ++ [.wrote b] }

theorem World.adv_got (w : World) (b : Byte) (reads : List RecvResult)
    (h : w.env.reads = .byte b :: reads) : Adv w (w.got b) [.got b] :=
  ⟨by simp [Event.onWire], rfl, rfl, by simp [World.got, h], by simp [World.got], by simp, rfl, rfl,
    rfl, id⟩

theorem World.adv_wrote (w : World) (b : Byte) (h : w.env.sends.headD .ok = .ok) :
    Adv w (w.wrote b) [.wrote b] := by
  refine ⟨by simp [Event.onWire], rfl, rfl, by simp [World.wrote], by simp [World.wrote], ?_, rfl, rfl,
    rfl, id⟩
  rcases hs : w.env.sends with _ | ⟨r, sends⟩
  · simp
  · rw [hs] at h
    simpa using h

/-- The device stopped a read. -/
theorem World.starve_read (w : World) {w' : World} {e : Stop}
    (hno : ∀ b rest, w.env.reads ≠ .byte b :: rest)
    (he : e = .starved ∨ ∃ r ∈ w.env.reads,
      e = .warning ∧ r.Warns ∧ w'.impl = w.impl ∨ e = .error ∧ r.Fails)
    (hevs : w'.events = w.events) (hshell : w'.impl.shell = w.impl.shell) : Starve w e w' [] := by
  have hdry : Dry w.env.reads [] := ⟨w.env.reads, rfl, hno⟩
  refine ⟨⟨?_, quiet_nil, by rw [hevs, List.append_nil], hshell, .inl hdry, ?_, ?_, ?_⟩, hdry⟩
  · rcases he with rfl | ⟨r, -, ⟨rfl, -⟩ | ⟨rfl, -⟩⟩ <;> simp
  · rintro rfl htimely
    rcases he with he | ⟨r, hr, ⟨-, hwarns, -⟩ | ⟨he, -⟩⟩
    · exact nomatch he
    · exact htimely r hr hwarns
    · exact nomatch he
  · rintro rfl hfaultless
    rcases he with he | ⟨r, hr, ⟨he, -⟩ | ⟨-, hfails⟩⟩
    · exact nomatch he
    · exact nomatch he
    · exact hfaultless.1 r hr hfails
  · rintro rfl
    rcases he with he | ⟨r, hr, ⟨-, -, himpl⟩ | ⟨he, -⟩⟩
    · exact nomatch he
    · rw [himpl]
      exact id
    · exact nomatch he

/-- A read returns the next byte of the script, or the device stops it. -/
theorem wp_read (sec nsec : Nat) (Q : Byte → World → Prop) (E : Stop → World → Prop) (w : World)
    (hok : ∀ b reads, w.env.reads = .byte b :: reads → Q b (w.got b))
    (hstop : ∀ e w', Starve w e w' [] → E e w') : wp (read sec nsec) Q E w := by
  rcases hr : w.env.reads with _ | ⟨_ | _ | _ | _ | _ | _, reads⟩
  · simp only [read, deviceRecv, wp_bind, wp_get, hr, wp_throw]
    exact hstop _ _ (w.starve_read (by simp [hr]) (.inl rfl) rfl rfl)
  · rename_i b
    simp only [read, deviceRecv, wp_bind, wp_get, hr, wp_set, wp_pure, wp_emit]
    have hgot := hok b reads hr
    rw [World.got, hr] at hgot
    exact hgot
  · simp only [read, deviceRecv, wp_bind, wp_get, hr, wp_set, deviceClose, wp_modifyImpl, wp_throw]
    exact hstop _ _ (w.starve_read (by simp [hr])
      (.inr ⟨.invalid, by simp [hr], .inr ⟨rfl, .inl rfl⟩⟩) rfl rfl)
  · simp only [read, deviceRecv, wp_bind, wp_get, hr, wp_set, wp_ite, wp_throw]
    exact ⟨fun _ => hstop _ _ (w.starve_read (by simp [hr])
        (.inr ⟨.pollError, by simp [hr], .inr ⟨rfl, .inr (.inl rfl)⟩⟩) rfl rfl),
      fun _ => hstop _ _ (w.starve_read (by simp [hr]) (.inl rfl) rfl rfl)⟩
  · simp only [read, deviceRecv, wp_bind, wp_get, hr, wp_set, wp_ite, wp_throw]
    exact ⟨fun _ => hstop _ _ (w.starve_read (by simp [hr])
        (.inr ⟨.timeout, by simp [hr], .inl ⟨rfl, .inl rfl, rfl⟩⟩) rfl rfl),
      fun _ => hstop _ _ (w.starve_read (by simp [hr]) (.inl rfl) rfl rfl)⟩
  · simp only [read, deviceRecv, wp_bind, wp_get, hr, wp_set, wp_throw]
    exact hstop _ _ (w.starve_read (by simp [hr])
      (.inr ⟨.readError, by simp [hr], .inr ⟨rfl, .inr (.inr rfl)⟩⟩) rfl rfl)
  · simp only [read, deviceRecv, wp_bind, wp_get, hr, wp_set, wp_throw]
    exact hstop _ _ (w.starve_read (by simp [hr])
      (.inr ⟨.eof, by simp [hr], .inl ⟨rfl, .inr rfl, rfl⟩⟩) rfl rfl)

theorem wp_read_byte (sec nsec : Nat) (Q : Byte → World → Prop) (E : Stop → World → Prop) (w : World)
    (b : Byte) (reads : List RecvResult) (h : w.env.reads = .byte b :: reads) :
    wp (read sec nsec) Q E w ↔ Q b (w.got b) := by
  simp only [read, deviceRecv, wp_bind, wp_get, h, wp_set, wp_pure, wp_emit, World.got,
    List.tail_cons]

/-- A device that accepts every write accepts the next one. -/
theorem headD_sends {sends : List SendResult} (h : ∀ r ∈ sends, r = .ok) : sends.headD .ok = .ok := by
  cases sends with
  | nil => rfl
  | cons r sends => exact h r List.mem_cons_self

theorem World.not_faultless (w : World) (h : w.env.sends.headD .ok ≠ .ok) : ¬ w.env.Faultless :=
  fun hfaultless => h (headD_sends hfaultless.2)

theorem wp_write (b : Byte) (Q : PUnit → World → Prop) (E : Stop → World → Prop) (w : World)
    (hok : w.env.sends.headD .ok = .ok → Q ⟨⟩ (w.wrote b))
    (hstop : ∀ e w', w.env.sends.headD .ok ≠ .ok → Halt w e w' [] → E e w') :
    wp (write b) Q E w := by
  simp only [write, deviceSend, wp_bind, wp_get, wp_set]
  rcases hs : w.env.sends.headD .ok with _ | _ | _
  · exact hok hs
  · have hno : w.env.sends.headD .ok ≠ .ok := by rw [hs]; decide
    exact hstop _ _ hno ⟨by simp, quiet_nil, by simp, rfl, .inr hno, by simp, fun _ => w.not_faultless hno, by simp⟩
  · have hno : w.env.sends.headD .ok ≠ .ok := by rw [hs]; decide
    exact hstop _ _ hno ⟨by simp, quiet_nil, by simp, rfl, .inr hno, by simp, fun _ => w.not_faultless hno, by simp⟩

theorem wp_write_ok (b : Byte) (Q : PUnit → World → Prop) (E : Stop → World → Prop) (w : World)
    (h : w.env.sends.headD .ok = .ok) : wp (write b) Q E w ↔ Q ⟨⟩ (w.wrote b) := by
  simp only [write, deviceSend, wp_bind, wp_get, wp_set, h]
  rfl

theorem wp_writeRead (b : Byte) (Q : PUnit → World → Prop) (E : Stop → World → Prop) (w : World)
    (hok : ∀ x w', Adv w w' [.wrote b, .got x] → w'.impl = w.impl → Q ⟨⟩ w')
    (hstop : ∀ e w' evs, Halt w e w' evs →
      evs = [] ∧ w.env.sends.headD .ok ≠ .ok ∨ evs = [.wrote b] ∧ w.env.sends.headD .ok = .ok →
      E e w') : wp (writeRead b 0 0) Q E w := by
  rw [writeRead, wp_bind]
  refine wp_write b _ _ w (fun hs => ?_) fun e w' hs h => hstop e w' [] h (.inl ⟨rfl, hs⟩)
  have hw := w.adv_wrote b hs
  rw [wp_bind]
  refine wp_read 0 0 _ _ _ (fun x reads hr => ?_) fun e w' h => ?_
  · exact hok x _ (hw.trans (World.adv_got _ x reads hr)) rfl
  · exact hstop e w' _ (hw.halt h.toHalt) (.inr ⟨rfl, hs⟩)

/-- `writeRead` does not touch the messages, however it ends. -/
theorem wp_writeRead_active (b : Byte) (w : World) :
    wp (writeRead b 0 0) (fun _ w' => w'.impl.activeMessage = w.impl.activeMessage)
      (fun _ w' => w'.impl.activeMessage = w.impl.activeMessage) w := by
  have hread : ∀ w₁ : World, w₁.impl.activeMessage = w.impl.activeMessage →
      wp (read 0 0) (fun _ w' => w'.impl.activeMessage = w.impl.activeMessage)
        (fun _ w' => w'.impl.activeMessage = w.impl.activeMessage) w₁ := by
    intro w₁ h₁
    rcases hr : w₁.env.reads with _ | ⟨_ | _ | _ | _ | _ | _, reads⟩
    case cons.byte byte =>
      rw [wp_read_byte 0 0 _ _ w₁ byte reads hr]
      exact h₁
    all_goals
      simp only [read, deviceRecv, deviceClose, wp_bind, wp_get, wp_set, hr, wp_modifyImpl, wp_ite,
        wp_throw, h₁, implies_true, and_self]
  unfold writeRead
  rw [wp_bind]
  rcases hs : w.env.sends.headD .ok with _ | _ | _
  · rw [wp_write_ok b _ _ w hs, wp_bind]
    exact hread (w.wrote b) rfl
  all_goals simp only [write, deviceSend, deviceClose, wp_bind, wp_get, wp_set, hs, wp_modifyImpl, wp_throw]

theorem wp_sendPart (part : List Byte) (crc : Byte) (Q : PUnit → World → Prop)
    (E : Stop → World → Prop) (w : World)
    (hok : ∀ evs w', Echoed (part ++ [crc]) evs → Adv w w' evs → w'.impl = w.impl → Q ⟨⟩ w')
    (hstop : ∀ e w' evs, Halt w e w' evs → E e w') : wp (sendPart part crc) Q E w := by
  rw [sendPart, wp_bind]
  let I : List Byte → World → Prop := fun rest w' =>
    ∃ done evs, part = done ++ rest ∧ Echoed done evs ∧ Adv w w' evs ∧ w'.impl = w.impl
  have hloop : wp (part.forM fun byte => writeRead byte 0 0) (fun _ w' => I [] w') E w := by
    refine wp_forM part _ I E (fun b rest w₁ h => ?_) w ⟨[], [], rfl, .nil, .refl w, rfl⟩
    obtain ⟨done, evs, hp, he, ha, hi⟩ := h
    refine wp_writeRead b _ _ w₁ (fun x w₂ h₂ hi₂ => ?_) fun e w₂ evs₂ h₂ _ =>
      hstop e w₂ _ (ha.halt h₂)
    exact ⟨done ++ [b], evs ++ [.wrote b, .got x], by simp [hp], he.append (.cons b x .nil),
      ha.trans h₂, hi₂.trans hi⟩
  refine wp_mono hloop (fun _ w₁ h => ?_) fun _ _ h => h
  obtain ⟨done, evs, hp, he, ha, hi⟩ := h
  rw [List.append_nil] at hp
  subst hp
  refine wp_writeRead crc _ _ w₁ (fun x w₂ h₂ hi₂ => ?_) fun e w₂ evs₂ h₂ _ =>
    hstop e w₂ _ (ha.halt h₂)
  exact hok _ w₂ (he.append (.cons crc x .nil)) (ha.trans h₂) (hi₂.trans hi)

theorem wp_receiveByte (Q : Byte → World → Prop) (E : Stop → World → Prop) (w : World)
    (hok : ∀ b w', Adv w w' [.got b] →
      w'.impl = { w.impl with sequence := w.impl.sequence.pushBack b } → Q b w')
    (hstop : ∀ e w', Starve w e w' [] → E e w') : wp receiveByte Q E w := by
  rw [receiveByte, wp_bind]
  refine wp_read 1 0 _ _ w (fun b reads hr => ?_) hstop
  simp only [wp_bind, wp_getImpl, wp_setSequence, wp_pure]
  have ha := w.adv_got b reads hr
  exact hok b _ (ha.trans (.modify _ _ rfl id)) rfl

theorem wp_receiveByte_byte (Q : Byte → World → Prop) (E : Stop → World → Prop) (w : World) {b : Byte}
    {reads : List RecvResult} (h : w.env.reads = .byte b :: reads)
    (hok : ∀ w', Adv w w' [.got b] → w'.env.reads = reads →
      w'.impl = { w.impl with sequence := w.impl.sequence.pushBack b } → Q b w') :
    wp receiveByte Q E w := by
  rw [receiveByte, wp_bind, wp_read_byte 1 0 _ _ w b reads h]
  simp only [wp_bind, wp_getImpl, wp_setSequence, wp_pure]
  refine hok _ ((w.adv_got b reads h).trans (.modify _ _ rfl id)) ?_ rfl
  simp only [World.got, h, List.tail_cons]

/-- A counting loop takes a counted string from the stream. -/
theorem wp_receiveBytes (fuel n : Nat) (Q : PUnit → World → Prop) (E : Stop → World → Prop)
    (w : World) (l : List Byte) (hseq : w.impl.sequence = ⟨l, true⟩)
    (hfuel : w.env.reads.length < fuel)
    (hok : ∀ r w', ebusCode.Counted n r → Adv w w' (r.map .got) →
      w'.impl = { w.impl with sequence := ⟨l ++ r, true⟩ } → Q ⟨⟩ w')
    (hstop : ∀ e w' (r : List Byte), Starve w e w' (r.map .got) →
      ebusCode.Short n r → E e w') : wp (receiveBytes fuel n) Q E w := by
  induction fuel generalizing n w l with
  | zero => exact absurd hfuel (Nat.not_lt_zero _)
  | succ fuel ih =>
    cases n with
    | zero => exact hok [] w .nil (.refl w) (by rw [List.append_nil, ← hseq])
    | succ n =>
      rw [receiveBytes, wp_bind]
      refine wp_receiveByte _ _ w (fun b w₁ h₁ hi₁ => ?_) fun e w' h =>
        hstop e w' [] h (EscapeCode.short_nil n)
      have hseq₁ : w₁.impl.sequence = ⟨l ++ [b], true⟩ := by rw [hi₁, hseq]; rfl
      have hfuel₁ : w₁.env.reads.length < fuel := by
        have hr := congrArg List.length h₁.reads
        simp only [gotBytes_got, gotBytes_nil, List.map_cons, List.map_nil, List.length_append,
          List.length_cons, List.length_nil] at hr
        omega
      have hnext : ∀ k, (∀ r, ebusCode.Counted k r ↔ ebusCode.Counted (n + 1) (b :: r)) →
          wp (receiveBytes fuel k) Q E w₁ := by
        intro k hk
        refine ih k w₁ (l ++ [b]) hseq₁ hfuel₁ (fun r w₂ hr h₂ hi₂ => ?_) fun e w₂ r h₂ hr =>
          hstop e w₂ (b :: r) (h₁.starve h₂) (hr.cons hk)
        refine hok (b :: r) w₂ ((hk r).1 hr) (h₁.trans h₂) ?_
        rw [hi₂, hi₁, List.append_assoc, List.singleton_append]
      rw [wp_ite]
      refine ⟨fun hb => hnext (n + 1) fun r => ?_, fun hb => hnext n fun r => ?_⟩
      · rw [hb]
        exact (EscapeCode.counted_escape_iff n r).symm
      · exact (EscapeCode.counted_symbol_iff hb n r).symm

theorem wp_receivePart (fuel n : Nat) (Q : Sequence → World → Prop) (E : Stop → World → Prop)
    (w : World) (l : List Byte) (hfuel : w.env.reads.length < fuel)
    (hok : ∀ r w', ebusCode.Counted n r → Adv w w' (r.map .got) → w'.impl = w.impl →
      Q ⟨l ++ r, true⟩ w')
    (hstop : ∀ e w' (r : List Byte), Starve w e w' (r.map .got) →
      ebusCode.Short n r → E e w') :
    wp (receivePart fuel n ⟨l, true⟩) Q E w := by
  induction fuel generalizing n w l with
  | zero => exact absurd hfuel (Nat.not_lt_zero _)
  | succ fuel ih =>
    cases n with
    | zero =>
      have hq := hok [] w .nil (.refl w) rfl
      rw [List.append_nil] at hq
      exact hq
    | succ n =>
      rw [receivePart, wp_bind]
      refine wp_read 1 0 _ _ w (fun b reads hr => ?_) fun e w' h =>
        hstop e w' [] h (EscapeCode.short_nil n)
      have h₁ := w.adv_got b reads hr
      have hfuel₁ : (w.got b).env.reads.length < fuel := by
        rw [World.got, hr]
        rw [hr, List.length_cons] at hfuel
        exact Nat.lt_of_succ_lt_succ hfuel
      have hnext : ∀ k, (∀ r, ebusCode.Counted k r ↔ ebusCode.Counted (n + 1) (b :: r)) →
          wp (receivePart fuel k ⟨l ++ [b], true⟩) Q E (w.got b) := by
        intro k hk
        refine ih k (w.got b) (l ++ [b]) hfuel₁ (fun r w₂ hr h₂ hi₂ => ?_) fun e w₂ r h₂ hr =>
          hstop e w₂ (b :: r) (h₁.starve h₂) (hr.cons hk)
        have hq := hok (b :: r) w₂ ((hk r).1 hr) (h₁.trans h₂) hi₂
        rwa [List.append_cons] at hq
      rw [wp_ite]
      refine ⟨fun hb => hnext (n + 1) fun r => ?_, fun hb => hnext n fun r => ?_⟩
      · rw [hb]
        exact (EscapeCode.counted_escape_iff n r).symm
      · exact (EscapeCode.counted_symbol_iff hb n r).symm

end EBusFsm
