import Mathlib.Tactic

/-!
# A shared bus

Every symbol that a party writes to the bus is read by all parties, by the writer as well. A `Listener`
is a party as a relation: what it has done when it has read all that the bus carried. It is causal (`cut`):
on a longer stream it does the same and reads on. It writes when the last thing it did is to write
(`Listener.Writes`), and the bus grows by what one party writes (`Carried`).

A transcript names the writer of every symbol, and a party sees it through `view`. When each party does
what it sees, nothing else can happen on the bus: `carried_of_views` says that the bus carries the
transcript, and `comparable_of_views` that whatever the bus carries is a beginning of the transcript or
goes on from it.
-/

variable {ι β : Type}

/-! ### Ticks -/

/-- What a party does on the bus. -/
inductive Tick (β : Type)
  | wrote (b : β)
  | got (b : β)
  deriving DecidableEq, Repr

namespace Tick

/-- The symbols read. -/
def gots : List (Tick β) → List β
  | [] => []
  | .wrote _ :: l => gots l
  | .got b :: l => b :: gots l

@[simp] theorem gots_append (l r : List (Tick β)) : gots (l ++ r) = gots l ++ gots r := by
  induction l with
  | nil => rfl
  | cons a l ih =>
    cases a with
    | wrote b => exact ih
    | got b => exact congrArg (b :: ·) ih

/-- What precedes a read is determined by the symbols read before it. -/
theorem eq_of_gots_eq {l l' r r' : List (Tick β)} {b b' : β}
    (h : l ++ .got b :: r = l' ++ .got b' :: r') (hgots : gots l = gots l') : l = l' := by
  induction l generalizing l' with
  | nil =>
    cases l' with
    | nil => rfl
    | cons a l' =>
      obtain ⟨rfl, -⟩ := List.cons.inj h
      exact nomatch hgots
  | cons a l ih =>
    cases l' with
    | nil =>
      obtain ⟨rfl, -⟩ := List.cons.inj h
      exact nomatch hgots
    | cons a' l' =>
      obtain ⟨rfl, hrest⟩ := List.cons.inj h
      refine congrArg (a :: ·) (ih hrest ?_)
      cases a with
      | wrote b => exact hgots
      | got b => exact List.tail_eq_of_cons_eq hgots

end Tick

/-! ### Parties -/

/-- A party: what it has done when it has read the symbols. -/
structure Listener (β : Type) where
  heard : List β → List (Tick β) → Prop
  reads : ∀ {l ticks}, heard l ticks → Tick.gots ticks = l
  unique : ∀ {l ticks ticks'}, heard l ticks → heard l ticks' → ticks = ticks'
  cut : ∀ {l b r ticks}, heard (l ++ b :: r) ticks →
    ∃ before after, heard l before ∧ ticks = before ++ .got b :: after

/-- The party has read the symbols, and writes. -/
def Listener.Writes (party : Listener β) (l : List β) (b : β) : Prop :=
  ∃ ticks, party.heard l (ticks ++ [.wrote b])

/-- What the bus can carry when every party reads every symbol before the next one is written. -/
inductive Carried (parties : ι → Listener β) : List β → Prop
  | nil : Carried parties []
  | snoc {l : List β} {i : ι} {b : β} (h : Carried parties l) (hwrites : (parties i).Writes l b) :
      Carried parties (l ++ [b])

/-! ### Transcripts -/

/-- The transcript as a party sees it. -/
def view [DecidableEq ι] (i : ι) : List (ι × β) → List (Tick β)
  | [] => []
  | (j, b) :: t => (if j = i then [.wrote b] else []) ++ .got b :: view i t

/-- Each party does what it sees, and may write once more. -/
def Viewed [DecidableEq ι] (parties : ι → Listener β) (t : List (ι × β)) : Prop :=
  ∀ i, ∃ more, Tick.gots more = [] ∧ (parties i).heard (t.map Prod.snd) (view i t ++ more)

section Transcript

variable [DecidableEq ι] {parties : ι → Listener β} {t : List (ι × β)}

theorem view_append (i : ι) (t t' : List (ι × β)) : view i (t ++ t') = view i t ++ view i t' := by
  induction t with
  | nil => rfl
  | cons a t ih => rw [List.cons_append, view, view, ih, List.append_assoc, List.cons_append]

@[simp] theorem gots_view (i : ι) (t : List (ι × β)) : Tick.gots (view i t) = t.map Prod.snd := by
  induction t with
  | nil => rfl
  | cons a t ih =>
    rw [view, Tick.gots_append, Tick.gots, ih]
    split_ifs <;> rfl

/-- What the writer sees of its symbols. -/
theorem view_map_self (i : ι) (l : List β) :
    view i (l.map (Prod.mk i)) = l.flatMap fun b => [.wrote b, .got b] := by
  induction l with
  | nil => rfl
  | cons b l ih =>
    rw [List.map_cons, view, if_pos rfl, ih]
    rfl

/-- What another party sees of them. -/
theorem view_map_other {i j : ι} (h : j ≠ i) (l : List β) : view i (l.map (Prod.mk j)) = l.map .got := by
  induction l with
  | nil => rfl
  | cons b l ih =>
    rw [List.map_cons, view, if_neg h, ih]
    rfl

/-- What a party sees that writes nothing. -/
theorem view_of_silent {i : ι} {t : List (ι × β)} (h : ∀ a ∈ t, a.1 ≠ i) :
    view i t = (t.map Prod.snd).map .got := by
  induction t with
  | nil => rfl
  | cons a t ih =>
    rw [view, if_neg (h a List.mem_cons_self), ih fun a' ha' => h a' (List.mem_cons_of_mem _ ha')]
    rfl

/-- The last thing that a party sees is a read. -/
theorem view_ne_wrote (i : ι) (t : List (ι × β)) (ticks : List (Tick β)) (b : β) :
    view i t ≠ ticks ++ [.wrote b] := by
  induction t using List.reverseRecOn with
  | nil => simp [view]
  | append_singleton t a _ =>
    intro h
    rw [view_append, view, view, ← List.append_assoc] at h
    exact nomatch (List.append_inj' h rfl).2

/-- What a party has done behind a beginning of the transcript. -/
theorem Viewed.heard (h : Viewed parties t) {p q : List (ι × β)} {i : ι} {b : β}
    (ht : t = p ++ (i, b) :: q) (j : ι) :
    (parties j).heard (p.map Prod.snd) (view j p ++ if i = j then [.wrote b] else []) := by
  obtain ⟨more, -, hheard⟩ := h j
  rw [ht, List.map_append, List.map_cons] at hheard
  obtain ⟨before, after, hbefore, heq⟩ := (parties j).cut hheard
  have hsplit : (view j p ++ if i = j then [.wrote b] else []) ++ .got b :: (view j q ++ more) =
      before ++ .got b :: after := by
    rw [← heq, view_append, view]
    simp only [List.append_assoc, List.cons_append]
  have hgots : Tick.gots (view j p ++ if i = j then [.wrote b] else []) = Tick.gots before := by
    rw [(parties j).reads hbefore, Tick.gots_append, gots_view]
    split_ifs
    · exact List.append_nil _
    · exact List.append_nil _
  rw [Tick.eq_of_gots_eq hsplit hgots]
  exact hbefore

/-- Behind a beginning of the transcript only the party that it names writes, and only what it names. -/
theorem Viewed.writes_iff (h : Viewed parties t) {p q : List (ι × β)} {i : ι} {b : β}
    (ht : t = p ++ (i, b) :: q) (j : ι) (c : β) :
    (parties j).Writes (p.map Prod.snd) c ↔ j = i ∧ c = b := by
  have hheard := h.heard ht j
  constructor
  · rintro ⟨ticks, hticks⟩
    have heq := (parties j).unique hheard hticks
    by_cases hij : i = j
    · rw [if_pos hij] at heq
      have hlast := (List.append_inj' heq rfl).2
      obtain rfl : b = c := by simpa using hlast
      exact ⟨hij.symm, rfl⟩
    · rw [if_neg hij, List.append_nil] at heq
      exact absurd heq (view_ne_wrote j p ticks c)
  · rintro ⟨rfl, rfl⟩
    rw [if_pos rfl] at hheard
    exact ⟨_, hheard⟩

/-- The bus carries the transcript. -/
theorem carried_of_views (h : Viewed parties t) : Carried parties (t.map Prod.snd) := by
  suffices hgeneral : ∀ p q, t = p ++ q → Carried parties (p.map Prod.snd) from
    hgeneral t [] (List.append_nil t).symm
  intro p
  induction p using List.reverseRecOn with
  | nil =>
    intro q _
    exact .nil
  | append_singleton p a ih =>
    intro q ht
    rw [List.append_assoc, List.singleton_append] at ht
    rw [List.map_append]
    exact .snoc (ih _ ht) ((h.writes_iff ht a.1 a.2).2 ⟨rfl, rfl⟩)

/-- Whatever the bus carries is a beginning of the transcript or goes on from it. -/
theorem comparable_of_views (h : Viewed parties t) {l : List β} (hl : Carried parties l) :
    l <+: t.map Prod.snd ∨ t.map Prod.snd <+: l := by
  induction hl with
  | nil => exact .inl List.nil_prefix
  | @snoc l i b _ hwrites ih =>
    rcases ih with ⟨r, hr⟩ | hext
    · obtain ⟨p, q, rfl, rfl, rfl⟩ := List.append_eq_map_iff.1 hr
      cases q with
      | nil =>
        rw [List.append_nil]
        exact .inr (List.prefix_append _ _)
      | cons a q =>
        obtain ⟨-, rfl⟩ := (h.writes_iff rfl i b).1 hwrites
        refine .inl ⟨q.map Prod.snd, ?_⟩
        rw [List.map_append, List.map_cons, List.append_assoc, List.singleton_append]
    · exact .inr (hext.trans (List.prefix_append _ _))

end Transcript
