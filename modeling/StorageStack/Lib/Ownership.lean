import Mathlib.Logic.Function.Basic
import Mathlib.Tactic.Common

/-!
# Ownership of blocks

A store of numbered blocks in which some locations inside blocks name other blocks. An ownership map
records for each block the one location that may name it. A map is sound when every location of an
owned block names nothing or a block it owns: no block then has two names, whatever the walk that finds
them, and each change of the store is checked at the changed locations alone.
-/

namespace StorageStack.Lib

/-- The locations `L` of a layout and the kinds `K` of its blocks. -/
structure Scheme (L K : Type) where
  /-- The block a location is part of. -/
  host : L → Nat
  /-- What that block has to be for the location to exist; `none` if it never does. -/
  hostKind : L → Option K
  /-- What the block is that the location names. -/
  kind : L → K

namespace Scheme

variable {L K : Type} (S : Scheme L K) {own own' : Nat → Option L} {target target' : L → Nat}

def role (own : Nat → Option L) (b : Nat) : Option K := (own b).map S.kind

/-- The location exists: its block is in use as what the location needs. -/
def Live (own : Nat → Option L) (l : L) : Prop := (S.hostKind l).isSome ∧ S.role own (S.host l) = S.hostKind l

def Sound (own : Nat → Option L) (target : L → Nat) : Prop :=
  ∀ l, S.Live own l → target l ≠ 0 → own (target l) = some l

variable {S}

theorem role_eq_some {b : Nat} {k : K} (h : S.role own b = some k) : ∃ l, own b = some l ∧ S.kind l = k :=
  Option.map_eq_some_iff.mp h

theorem role_of_own {b : Nat} {l : L} (h : own b = some l) : S.role own b = some (S.kind l) := by
  rw [role, h]; rfl

theorem Live.owned {l : L} (h : S.Live own l) : ∃ l', own (S.host l) = some l' ∧ S.hostKind l = some (S.kind l') := by
  obtain ⟨k, hk⟩ := Option.isSome_iff_exists.mp h.1
  obtain ⟨l', owned, same⟩ := role_eq_some (h.2.trans hk)
  exact ⟨l', owned, by rw [hk, same]⟩

theorem live_of_role {l : L} {k : K} (h : S.hostKind l = some k) (used : S.role own (S.host l) = some k) :
    S.Live own l := ⟨by rw [h]; rfl, used.trans h.symm⟩

theorem Live.congr {l : L} (h : S.Live own l) (same : own' (S.host l) = own (S.host l)) : S.Live own' l :=
  ⟨h.1, by rw [role, same]; exact h.2⟩

/-- No block has two names. -/
theorem Sound.injective (sound : S.Sound own target) {l l' : L} (live : S.Live own l) (live' : S.Live own l')
    (named : target l ≠ 0) (same : target l = target l') : l = l' := by
  have owned := sound l live named
  rw [same, sound l' live' (same ▸ named)] at owned
  exact (Option.some.inj owned).symm

/-! ### Changes -/

/-- A block nobody owned is given to a location; its own locations name nothing yet. -/
theorem Sound.adopt (sound : S.Sound own target) {b : Nat} (free : own b = none) (l : L)
    (empty : ∀ l', S.host l' = b → target' l' = 0)
    (same : ∀ l', S.Live own l' → S.host l' ≠ b → target' l' = target l') :
    S.Sound (Function.update own b (some l)) target' := by
  intro l' live named
  have elsewhere : S.host l' ≠ b := fun here => named (empty l' here)
  have before : S.Live own l' := live.congr (Function.update_of_ne elsewhere ..).symm
  rw [same l' before elsewhere] at named ⊢
  have owned := sound l' before named
  have other : target l' ≠ b := by
    intro here
    rw [here, free] at owned
    cases owned
  rw [Function.update_of_ne other, owned]

/-- Blocks nobody owned are claimed as blocks without locations of their own. -/
theorem Sound.claim (sound : S.Sound own target) (spare : Nat → Option L)
    (inert : ∀ b l, spare b = some l → ∀ l', S.hostKind l' ≠ some (S.kind l)) :
    S.Sound (fun b => (own b).or (spare b)) target := by
  intro l live named
  obtain ⟨holder, owned, fits⟩ := live.owned
  have before : S.Live own l := by
    refine live.congr ?_
    cases used : own (S.host l) with
    | some m => rw [Option.some_or]
    | none =>
      rw [used, Option.none_or] at owned
      exact absurd fits (inert _ _ owned l)
  show (own (target l)).or _ = some l
  rw [sound l before named, Option.some_or]

/-- The locations of one block are changed; each names nothing or a block it owns. -/
theorem Sound.store (sound : S.Sound own target) {b : Nat}
    (stored : ∀ l, S.Live own l → S.host l = b → target' l ≠ 0 → own (target' l) = some l)
    (same : ∀ l, S.Live own l → S.host l ≠ b → target' l = target l) : S.Sound own target' := by
  intro l live named
  by_cases here : S.host l = b
  · exact stored l live here named
  · rw [same l live here] at named ⊢
    exact sound l live named

/-- Blocks are given up. Each was named from a block given up as well, or is not named any more. -/
theorem Sound.release (gone : Nat → Prop) [DecidablePred gone] (sound : S.Sound own target)
    (unnamed : ∀ b l, gone b → own b = some l → S.Live own l → gone (S.host l) ∨ target l ≠ b) :
    S.Sound (fun b => if gone b then none else own b) target := by
  intro l live named
  have kept : ¬ gone (S.host l) := by
    intro h
    obtain ⟨_, owned, _⟩ := live.owned
    simp [h] at owned
  have before : S.Live own l := live.congr (by simp [kept])
  have owned := sound l before named
  have stays : ¬ gone (target l) := by
    intro h
    rcases unnamed _ _ h owned before with host | other
    · exact kept host
    · exact other rfl
  simp [stays, owned]

/-- `b` is given up and what its location `m` owned goes to `l`. -/
def bypass [DecidableEq L] (own : Nat → Option L) (b : Nat) (m l : L) (c : Nat) : Option L :=
  if c = b then none else if own c = some m then some l else own c

theorem role_bypass [DecidableEq L] {b c : Nat} {m l : L} (alike : S.kind m = S.kind l) (other : c ≠ b) :
    S.role (bypass own b m l) c = S.role own c := by
  unfold role bypass
  rw [if_neg other]
  split
  · rename_i holder
    rw [holder, Option.map_some, Option.map_some, alike]
  · rfl

/-- A block is given up, and the location `l` that named it names what its location `m` named. -/
theorem Sound.bypass [DecidableEq L] (sound : S.Sound own target) {b : Nat} {l m : L} (live : S.Live own l)
    (live' : S.Live own m) (owned : own b = some l) (inside : S.host m = b) (apart : S.host l ≠ b)
    (alike : S.kind m = S.kind l) (taken : target' l = target m)
    (same : ∀ l', S.Live own l' → l' ≠ l → S.host l' ≠ b → target' l' = target l') :
    S.Sound (Scheme.bypass own b m l) target' := by
  intro l' now named
  have other : S.host l' ≠ b := by
    intro here
    obtain ⟨_, gone, _⟩ := now.owned
    rw [here, Scheme.bypass, if_pos rfl] at gone
    cases gone
  have before : S.Live own l' := ⟨now.1, (role_bypass alike other).symm.trans now.2⟩
  unfold Scheme.bypass
  by_cases itself : l' = l
  · subst itself
    rw [taken] at named ⊢
    have holder := sound m live' named
    have away : target m ≠ b := by
      intro here
      rw [here, owned] at holder
      rw [Option.some.inj holder] at apart
      exact apart inside
    rw [if_neg away, if_pos holder]
  · rw [same l' before itself other] at named ⊢
    have holder := sound l' before named
    have away : target l' ≠ b := by
      intro here
      rw [here, owned] at holder
      exact itself (Option.some.inj holder).symm
    have others : own (target l') ≠ some m := by
      intro here
      rw [holder] at here
      rw [Option.some.inj here] at other
      exact other inside
    rw [if_neg away, if_neg others, holder]

/-! ### Locations found by a walk -/

variable (S) in
/-- The locations a walk from `root` finds. -/
inductive Reach (target : L → Nat) (root : L) : L → Prop
  | root : Reach target root root
  | step {l l' : L} (before : Reach target root l) (named : target l ≠ 0) (inside : S.host l' = target l)
      (fits : S.hostKind l' = some (S.kind l)) : Reach target root l'

theorem Reach.live (sound : S.Sound own target) {root l : L} (first : S.Live own root)
    (h : S.Reach target root l) : S.Live own l := by
  induction h with
  | root => exact first
  | step before named inside fits ih =>
    have owned := sound _ ih named
    apply live_of_role fits
    rw [inside]
    exact role_of_own owned

theorem Reach.congr {root l : L} (h : S.Reach target root l) (same : ∀ l, S.Reach target root l → target' l = target l) :
    S.Reach target' root l := by
  induction h with
  | root => exact .root
  | step before named inside fits ih =>
    have here := same _ before
    exact .step ih (by rwa [here]) (by rw [inside, here]) fits

/-- The map that a walk finds, over what `base` owns without being named. -/
noncomputable def holder (S : Scheme L K) (target : L → Nat) (root : L) (base : Nat → Option L) (b : Nat) : Option L :=
  open Classical in
  if h : ∃ l, S.Reach target root l ∧ target l ≠ 0 ∧ target l = b then some h.choose else base b

theorem holder_eq {root : L} {base : Nat → Option L}
    (distinct : ∀ l l', S.Reach target root l → S.Reach target root l' → target l ≠ 0 → target l = target l' → l = l')
    {l : L} (reach : S.Reach target root l) (named : target l ≠ 0) :
    holder S target root base (target l) = some l := by
  have found : ∃ l', S.Reach target root l' ∧ target l' ≠ 0 ∧ target l' = target l := ⟨l, reach, named, rfl⟩
  rw [holder, dif_pos found]
  have chosen := found.choose_spec
  exact congrArg _ (distinct _ _ chosen.1 reach chosen.2.1 chosen.2.2)

theorem holder_cases {root : L} {base : Nat → Option L} {b : Nat} {l : L}
    (h : holder S target root base b = some l) :
    (S.Reach target root l ∧ target l ≠ 0 ∧ target l = b) ∨ base b = some l := by
  unfold holder at h
  split at h
  · rename_i found
    obtain rfl := Option.some.inj h
    exact Or.inl found.choose_spec
  · exact Or.inr h

/-- When no two locations a walk finds name one block, the map it finds is sound. -/
theorem holder_sound {root : L} {base : Nat → Option L}
    (distinct : ∀ l l', S.Reach target root l → S.Reach target root l' → target l ≠ 0 → target l = target l' → l = l')
    (start : ∀ b l l', base b = some l → S.host l' = b → S.hostKind l' = some (S.kind l) → l' = root) :
    S.Sound (holder S target root base) target := by
  intro l live named
  refine holder_eq distinct ?_ named
  obtain ⟨l', owned, fits⟩ := live.owned
  rcases holder_cases owned with ⟨reach, named, here⟩ | based
  · exact .step reach named here.symm fits
  · rw [start _ _ _ based rfl fits]
    exact .root

end Scheme

end StorageStack.Lib
