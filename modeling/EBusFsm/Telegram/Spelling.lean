import EBusFsm.Lib.Spelling
import EBusFsm.Telegram.Parse

/-!
# Other spellings of a telegram

`reduce` reads more than `extend` writes: it takes a synchronization byte for an expand byte, any number of
them for one, any byte behind them but `01` for the code of the expand byte, and drops those at the end.
The CRC is computed on the telegram as `extend` would write it, so `parse` does not notice.
`valid_escaped_iff` says which bytes it accepts although they are not well formed: the other spellings of the
texts that it accepts.
-/

namespace EBusFsm

/-- The bytes spell a text that `parse` accepts, in another way than `extend` does. -/
def Respelled (w : List Byte) : Prop :=
  ∃ l m s, Accepted l m s ∧ ebusCode.Spells w l ∧ w ≠ extendBytes l

theorem spells_iff_reduceBytes (w l : List Byte) : ebusCode.Spells w l ↔ reduceBytes w = l := by
  rw [EscapeCode.spells_iff, reduceBytes_eq_unstuff]

/-- **`parse` accepts well-formed bytes only, except for the other spellings**: a telegram that is valid was
escaped as `extend` escapes exactly if the bytes are no other spelling of an accepted text. -/
theorem valid_escaped_iff (tel : Telegram) (w : List Byte) :
    (∀ tel' seq, tel.parse ⟨w, true⟩ = .ok (tel', seq) → tel'.isValid = true →
        Sequence.Escaped w ∧ (Sequence.extend seq).seq = w) ↔ ¬ Respelled w := by
  obtain ⟨tel', hrun, hvalid, haccepted⟩ := tel.parse_spec ⟨w, true⟩
  rw [Sequence.reduce_extended] at hrun hvalid haccepted
  constructor
  · rintro h ⟨l, m, s, hl, hspells, hne⟩
    have hread := (spells_iff_reduceBytes w l).1 hspells
    rw [← hread] at hl hne
    exact hne (h tel' _ hrun (haccepted m s hl).1).2.symm
  · intro hno tel'' seq hrun' hok
    cases hrun.symm.trans hrun'
    obtain ⟨m, s, hl, -⟩ := hvalid hok
    have hextend : w = extendBytes (reduceBytes w) := by
      by_contra hne
      exact hno ⟨_, m, s, hl, (spells_iff_reduceBytes w _).2 rfl, hne⟩
    refine ⟨?_, hextend.symm⟩
    rw [hextend]
    exact Sequence.escaped_extend _

/-- The broadcast `fffeb50501a9` has the CRC `b3`, and its data byte is escaped as `a900`. With `a905` in its
place it is valid all the same. -/
theorem valid_respelled_sample :
    ¬ ∀ (tel : Telegram) (w : List Byte) (tel' : Telegram) (seq : Sequence),
      tel.parse ⟨w, true⟩ = .ok (tel', seq) → tel'.isValid = true →
        Sequence.Escaped w ∧ (Sequence.extend seq).seq = w := by
  intro h
  let w : List Byte := [0xff, 0xfe, 0xb5, 0x05, 0x01, 0xa9, 0x05, 0xb3]
  obtain ⟨tel', hrun, -, haccepted⟩ := ({} : Telegram).parse_spec ⟨w, true⟩
  let m : Master := ⟨0xff, 0xfe, 0xb5, 0x05, [0xa9], by decide, by decide, by decide⟩
  have hread : reduceBytes w = m.frame ++ [] := by decide
  have hl : Accepted (reduceBytes w) m none := hread ▸ .broadcast m [] (by decide)
  have hextend := (h {} w tel' _ hrun (haccepted m none hl).1).2
  exact absurd hextend (by decide)

end EBusFsm
