import StorageStack.Lib.Ownership

/-!
# Anchored blocks

Soundness of an ownership map says that no block has two names. The other half is that every block has
one: a block is anchored when the location it was allocated for still names it, and so on up to a root.
Blocks that are anchored stay so as long as the locations that hold something keep it.
-/

namespace StorageStack.Lib.Scheme

variable {L K : Type} {S : Scheme L K} {own own' own'' : Nat → Option L} {target target' target'' : L → Nat}
  {root root' b : Nat}

variable (S) in
/-- The owner of `b` names it, the owner of the block of that location names that block, and so on up to `root`. -/
inductive Anchored (own : Nat → Option L) (target : L → Nat) (root : Nat) : Nat → Prop
  | root : Anchored own target root root
  | step {b : Nat} {l : L} (owned : own b = some l) (live : S.Live own l) (named : target l = b)
      (host : Anchored own target root (S.host l)) : Anchored own target root b

variable (S) in
/-- The location names the block that was allocated for it. -/
def Holds (own : Nat → Option L) (target : L → Nat) (l : L) : Prop := S.Live own l ∧ own (target l) = some l

theorem Anchored.trans (h : S.Anchored own target root' b) (h' : S.Anchored own target root root') :
    S.Anchored own target root b := by
  induction h with
  | root => exact h'
  | step owned live named _ ih => exact .step owned live named ih

/-- Blocks whose path to the root does not go through `gone` stay anchored. -/
theorem Anchored.keep (gone : Nat → Prop) (h : S.Anchored own target root b) (stays : ¬ gone b)
    (below : ∀ c l, own c = some l → gone (S.host l) → gone c)
    (kept : ∀ c l, own c = some l → ¬ gone c → own' c = some l)
    (same : ∀ l, S.Holds own target l → ¬ gone (target l) → target' l = target l) : S.Anchored own' target' root b := by
  induction h with
  | root => exact .root
  | @step b l owned live named _ ih =>
    have above : ¬ gone (S.host l) := fun h => stays (below b l owned h)
    obtain ⟨l', hosted, _⟩ := live.owned
    refine .step (kept b l owned stays) (live.congr ?_) ?_ (ih above)
    · rw [kept _ l' hosted above, hosted]
    · rw [same l ⟨live, named ▸ owned⟩ (named ▸ stays), named]

theorem Anchored.mono (h : S.Anchored own target root b) (grow : ∀ c l, own c = some l → own' c = some l)
    (same : ∀ l, S.Holds own target l → target' l = target l) : S.Anchored own' target' root b := by
  apply h.keep fun _ => False
  case stays => exact id
  case below => exact fun _ _ _ no => no
  case kept => exact fun c l owned _ => grow c l owned
  case same => exact fun l holds _ => same l holds

/-- A walk from the location of block 0 finds the owners of all anchored blocks. -/
theorem Anchored.reach {first : L} (top : ∀ l, S.Live own l → S.host l = 0 → l = first) (h : S.Anchored own target 0 b) :
    b = 0 ∨ ∃ l, S.Reach target first l ∧ own b = some l ∧ target l = b := by
  induction h with
  | root => exact .inl rfl
  | @step b l owned live named _ ih =>
    refine .inr ⟨l, ?_, owned, named⟩
    by_cases here : S.host l = 0
    · rw [top l live here]
      exact .root
    · obtain ⟨l', reach, hosted, names⟩ := ih.resolve_left here
      have fits : S.hostKind l = some (S.kind l') := live.2.symm.trans (role_of_own hosted)
      exact .step reach (by rw [names]; exact here) names.symm fits

/-! ### Additions -/

variable (S) in
/-- Nothing that was held is let go, and what was allocated hangs below `root`. -/
structure Extends (root : Nat) (own : Nat → Option L) (target : L → Nat) (own' : Nat → Option L) (target' : L → Nat) :
    Prop where
  grow : ∀ {b l}, own b = some l → own' b = some l
  kept : ∀ l, S.Holds own target l → target' l = target l
  fresh : ∀ b, own b = none → own' b ≠ none → S.Anchored own' target' root b

theorem Extends.refl (root : Nat) (own : Nat → Option L) (target : L → Nat) : S.Extends root own target own target :=
  ⟨id, fun _ _ => rfl, fun _ free used => absurd free used⟩

theorem Extends.anchored (h : S.Extends root own target own' target') (anchored : S.Anchored own target root' b) :
    S.Anchored own' target' root' b :=
  anchored.mono (fun _ _ owned => h.grow owned) h.kept

theorem Extends.holds (h : S.Extends root own target own' target') {l : L} (holds : S.Holds own target l) :
    S.Holds own' target' l := by
  obtain ⟨l', hosted, _⟩ := holds.1.owned
  refine ⟨holds.1.congr (by rw [h.grow hosted, hosted]), ?_⟩
  rw [h.kept l holds]
  exact h.grow holds.2

theorem Extends.trans (h : S.Extends root own target own' target') (h' : S.Extends root own' target' own'' target'') :
    S.Extends root own target own'' target'' := by
  refine ⟨fun owned => h'.grow (h.grow owned), fun l holds => (h'.kept l (h.holds holds)).trans (h.kept l holds),
    fun b free used => ?_⟩
  by_cases later : own' b = none
  · exact h'.fresh b later used
  · exact h'.anchored (h.fresh b free later)

/-- What was allocated is named from blocks that were anchored before. -/
theorem Extends.of_hosts (grow : ∀ b l, own b = some l → own' b = some l)
    (kept : ∀ l, S.Holds own target l → target' l = target l)
    (fresh : ∀ b, own b = none → own' b ≠ none →
      ∃ l, own' b = some l ∧ S.Live own' l ∧ target' l = b ∧ S.Anchored own target root (S.host l)) :
    S.Extends root own target own' target' := by
  refine ⟨grow _ _, kept, fun b free used => ?_⟩
  obtain ⟨l, owned, live, named, host⟩ := fresh b free used
  refine .step owned live named ?_
  exact host.mono grow kept

/-- What hangs below a block hangs below the root of that block. -/
theorem Extends.under (h : S.Extends root own target own' target') (below : S.Anchored own' target' root' root) :
    S.Extends root' own target own' target' :=
  ⟨h.grow, h.kept, fun b free used => (h.fresh b free used).trans below⟩

/-! ### Unlinking -/

/-- A block is given up, and the location that named it names what the block's location `m` named. -/
theorem Anchored.bypass [DecidableEq L] {c : Nat} {l m : L} (h : S.Anchored own target root c) (other : c ≠ b)
    (top : root ≠ b) (live : S.Live own l) (owned : own b = some l) (named : target l = b) (inside : S.host m = b)
    (apart : S.host l ≠ b) (alike : S.kind m = S.kind l) (taken : target' l = target m)
    (same : ∀ l', S.Live own l' → l' ≠ l → S.host l' ≠ b → target' l' = target l')
    (only : ∀ l', S.Holds own target l' → S.host l' = b → l' = m) :
    S.Anchored (Scheme.bypass own b m l) target' root c := by
  have stays : ∀ l', S.Live own l' → S.host l' ≠ b → S.Live (Scheme.bypass own b m l) l' := fun l' live elsewhere =>
    ⟨live.1, (role_bypass alike elsewhere).trans live.2⟩
  -- The blocks behind `b` are found through the block before it.
  suffices both : (c ≠ b → S.Anchored (Scheme.bypass own b m l) target' root c) ∧
      (c = b → S.Anchored (Scheme.bypass own b m l) target' root (S.host l)) from both.1 other
  clear other
  induction h with
  | root => exact ⟨fun _ => .root, fun here => absurd here top⟩
  | @step c l' owner alive names _ ih =>
    refine ⟨fun other => ?_, fun here => ?_⟩
    · by_cases behind : S.host l' = b
      · obtain rfl := only l' ⟨alive, names ▸ owner⟩ behind
        refine .step ?_ (stays l live apart) (taken.trans names) (ih.2 behind)
        rw [Scheme.bypass, if_neg other, if_pos owner]
      · have itself : l' ≠ l := by
          rintro rfl
          exact other (names.symm.trans named)
        have elsewhere : l' ≠ m := by
          rintro rfl
          exact behind inside
        refine .step ?_ (stays l' alive behind) ((same l' alive itself behind).trans names) (ih.1 behind)
        rw [Scheme.bypass, if_neg other, if_neg, owner]
        rw [owner]
        exact fun eq => elsewhere (Option.some.inj eq)
    · rw [here, owned] at owner
      obtain rfl := Option.some.inj owner
      exact ih.1 apart

end StorageStack.Lib.Scheme
