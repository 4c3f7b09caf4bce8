import StorageStack.Sfs.Ownership

/-!
# Blocks in use are named

`Sound` lets an ownership map forget about blocks: a block that is marked and named by nothing may have an
owner or none. A state is tight when there are no such blocks. A call that only adds keeps it tight, a call
that unlinks has to free what it unlinks.
-/

namespace StorageStack.Sfs
open Lib

/-- The owners of every block in use name it, all the way up to the superblock. -/
def Tight (own : Owners) (d : Image) : Prop :=
  ∀ b < 4096, 2 ≤ b → (d.read 1).bit b = true → layout.Anchored own (Loc.read d) 0 b

variable {own own' : Owners} {d d' : Image}

theorem Tight.anchored (tight : Tight own d) (sound : Sound own d) {b : Nat} (used : own b ≠ none) :
    layout.Anchored own (Loc.read d) 0 b := by
  by_cases first : b = 0
  · rw [first]
    exact .root
  · have := sound.ne_one used
    exact tight b (sound.lt used) (by omega) (sound.bit used)

theorem Tight.holds (tight : Tight own d) (sound : Sound own d) {b : Nat} {l : Loc} (owned : own b = some l) (other : b ≠ 0) :
    layout.Holds own (Loc.read d) l ∧ l.read d = b := by
  have anchored : layout.Anchored own (Loc.read d) 0 b := tight.anchored sound (by simp [owned])
  cases anchored with
  | root => exact absurd rfl other
  | step owned' live named _ =>
    obtain rfl := Option.some.inj (owned.symm.trans owned')
    exact ⟨⟨live, by rw [show Loc.read d l = b from named, owned]⟩, named⟩

theorem Tight.extend {root : Nat} (tight : Tight own d) (sound : Sound own d)
    (bits : ∀ b < 4096, (d'.read 1).bit b = true → (d.read 1).bit b = true ∨ own b = none ∧ own' b ≠ none)
    (ext : layout.Extends root own (Loc.read d) own' (Loc.read d')) (used : own root ≠ none) : Tight own' d' := by
  intro b hb low set
  rcases bits b hb set with before | ⟨free, taken⟩
  · exact ext.anchored (tight b hb low before)
  · exact (ext.fresh b free taken).trans (ext.anchored (tight.anchored sound used))

/-- Blocks are unlinked and freed; what is not `gone` keeps its name. -/
theorem Tight.release (gone : Nat → Prop) (tight : Tight own d)
    (bits : ∀ b < 4096, (d'.read 1).bit b = true → (d.read 1).bit b = true ∧ ¬ gone b)
    (below : ∀ c l, own c = some l → gone l.host → gone c) (kept : ∀ c l, own c = some l → ¬ gone c → own' c = some l)
    (same : ∀ l, layout.Holds own (Loc.read d) l → ¬ gone (l.read d) → l.read d' = l.read d) : Tight own' d' := by
  intro b hb low set
  obtain ⟨before, stays⟩ := bits b hb set
  exact (tight b hb low before).keep gone stays below kept same

end StorageStack.Sfs
