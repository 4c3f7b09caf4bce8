import StorageStack.Sfs.ReadOnly

/-!
# Room for block ids

`sfs_get_file_content` counts the blocks between two positions, the calls that use it make room for the
blocks of a length. A request that crosses one block boundary more than its length says runs over.
-/

namespace StorageStack.Sfs
open Lib

variable {s s' : State} {fd : Fin 32} {cur length cap cap' : Nat}

/-! ### Longer arrays -/

/-- Two arrays with room for all ids are filled alike. -/
theorem contentLoop_longer {remaining count : Nat} {frame : Block} {bids : List Nat} (room : bids.length + remaining ≤ cap)
    (room' : bids.length + remaining ≤ cap') :
    contentLoop cap remaining count frame bids s = contentLoop cap' remaining count frame bids s := by
  induction remaining generalizing count frame bids s with
  | zero => rfl
  | succ remaining ih =>
    rw [contentLoop, contentLoop]
    by_cases inside : count < SFS_FRAME_COUNT
    · rw [if_pos inside, if_pos inside]
      apply bind_congr
      intro filled
      have store : bids.length < cap := by omega
      have store' : bids.length < cap' := by omega
      dsimp only
      rw [if_pos store, if_pos store']
      refine ih ?_ ?_
      · rw [List.length_append, List.length_singleton]
        omega
      · rw [List.length_append, List.length_singleton]
        omega
    · rw [if_neg inside, if_neg inside]

theorem frameLoop_longer {fuel remaining count frameBid : Nat} {bids : List Nat} (room : bids.length + remaining ≤ cap)
    (room' : bids.length + remaining ≤ cap') :
    frameLoop cap fuel remaining count frameBid bids s = frameLoop cap' fuel remaining count frameBid bids s := by
  induction fuel generalizing remaining count frameBid bids s with
  | zero => rfl
  | succ fuel ih =>
    rw [frameLoop, frameLoop]
    by_cases done : remaining = 0
    · rw [if_pos done, if_pos done]
    · rw [if_neg done, if_neg done, contentLoop_longer room room']
      cases run : contentLoop cap' remaining count (s.disk.read frameBid) bids s with
      | error e => rfl
      | ok fill =>
        have total := (contentLoop_room run (by omega)).1
        rw [ok_bind, ok_bind]
        exact ih (by omega) (by omega)

/-! ### The array of the callers -/

/-- The ids are those of the blocks from `cur` to `cur + length`, they fit the array that the callers make, and a longer
array would make no difference: its end is never reached. -/
structure FitsArray (s : State) (fd : Fin 32) (cur length : Nat) : Prop where
  count : ∀ cap ids s', sfsGetFileContent cap s fd cur length = .ok (ids, s') →
    ids.length = (cur + length) / 512 - cur / 512 + 1 ∧ ids.length ≤ (numBids length).toNat
  inside : ∀ cap, (numBids length).toNat ≤ cap →
    sfsGetFileContent cap s fd cur length = sfsGetFileContent (numBids length).toNat s fd cur length

/-- The call returns, given an array that is long enough. -/
def Collects (s : State) (fd : Fin 32) (cur length : Nat) : Prop := ∃ cap r, sfsGetFileContent cap s fd cur length = .ok r

/-- The offset of the cursor in its block and what the length leaves of a block decide together. -/
theorem numBlocks_le_iff (small : cur + length < 2147483648) :
    numBlocks cur length ≤ (numBids length).toNat ↔ cur % 512 + length % 512 < 512 := by
  rw [numBlocks_nat (by omega), numBids_nonneg (by omega)]
  omega

theorem fitsArray_of_room (small : cur + length < 2147483648) (room : numBlocks cur length ≤ (numBids length).toNat) (s : State)
    (fd : Fin 32) : FitsArray s fd cur length := by
  have none : ([] : List Nat).length = 0 := rfl
  refine ⟨fun cap ids s' run => ?_, fun cap longer => ?_⟩
  · have stored := (frameLoop_count run (Nat.zero_le _)).1
    rw [none, Nat.zero_add] at stored
    exact ⟨stored.trans (numBlocks_nat (by omega)), stored.le.trans room⟩
  · exact frameLoop_longer (by omega) (by omega)

/-- A call that returns has stored all its ids, which is too many for a shorter array. -/
theorem FitsArray.room (fits : FitsArray s fd cur length) (collects : Collects s fd cur length) :
    numBlocks cur length ≤ (numBids length).toNat := by
  obtain ⟨cap, ⟨ids, s'⟩, run⟩ := collects
  have stored := (frameLoop_count run (Nat.zero_le _)).1
  rw [List.length_nil, Nat.zero_add] at stored
  exact stored.ge.trans (fits.count cap ids s' run).2

/-! ### A file that goes on for ever -/

/-- Every block is a frame with 127 blocks and a frame behind it. -/
def endless : State := { State.initial with disk := ⟨fun _ => ⟨fun _ => 1⟩⟩ }

theorem endless_noHoles (f i n : Nat) : NoHoles endless.disk f i n := by
  intro p _ _
  have block : ∀ b, endless.disk.read b = ⟨fun _ => 1⟩ := fun b => by
    unfold Image.read
    rfl
  rw [scanEntry, block]
  have entry : ∀ j < 127, content (⟨fun _ => 1⟩ : Block) j ≠ 0 := by decide
  exact entry _ (Nat.mod_lt _ (by decide))

theorem endless_collects (fd : Fin 32) (cur length : Nat) : Collects endless fd cur length :=
  ⟨numBlocks cur length, _, frameLoop_idle (Nat.mod_lt _ (by decide)) (endless_noHoles _ _ _) (Nat.lt_succ_self _)
    (Nat.zero_add _).le⟩

/-- The array is large enough if and only if the cursor's offset and the rest of the length stay below a block. Then it is so in
every state, otherwise in none in which the call can return. -/
theorem ids_fit_iff (small : cur + length < 2147483648) :
    ((∀ s fd, FitsArray s fd cur length) ↔ cur % 512 + length % 512 < 512) ∧
      ∀ s fd, Collects s fd cur length → (FitsArray s fd cur length ↔ cur % 512 + length % 512 < 512) := by
  refine ⟨⟨fun fits => ?_, fun below s fd => ?_⟩, fun s fd collects => ⟨fun fits => ?_, fun below => ?_⟩⟩
  · exact (numBlocks_le_iff small).mp ((fits endless 0).room (endless_collects 0 cur length))
  · exact fitsArray_of_room small ((numBlocks_le_iff small).mpr below) s fd
  · exact (numBlocks_le_iff small).mp (fits.room collects)
  · exact fitsArray_of_room small ((numBlocks_le_iff small).mpr below) s fd

theorem whole_block_fits : FitsArray oneFileLoaded 0 512 512 :=
  (@ids_fit_iff 512 512 (by decide)).1.mpr (by decide) oneFileLoaded 0

/-- One byte at the end of the first block needs the id of the next block, too. -/
theorem last_byte_overruns : ¬ ∀ (cur length : Nat), cur + length < 2147483648 → ∀ s fd, FitsArray s fd cur length := by
  intro claim
  obtain ⟨ids, s', run, -⟩ := @translates_ok oneFileOwners oneFileLoaded [4] 2 511 1 3 0 oneFile_sound
    oneFile_healthy.coherent.loaded rfl rfl oneFile_ok.chain (by decide) (by decide) (by decide)
    ((holesAt_le _ _ _ _).trans (Nat.le_trans (by decide) oneFile_free))
  have room := (claim 511 1 (by decide) oneFileLoaded 0).room ⟨2, _, run⟩
  exact absurd room (by decide)

end StorageStack.Sfs
