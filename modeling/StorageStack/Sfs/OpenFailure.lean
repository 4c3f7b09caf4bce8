import StorageStack.Sfs.Calls
import StorageStack.Sfs.Transfer

/-!
# When opening fails

`sfs_open` only looks at the descriptor table before it goes on: 0 for a directory that is not there is used
as a block, and -1 for a full directory as a slot. It fails as it should when the table is full, and works
when the directory exists and has the file or an empty slot.
-/

namespace StorageStack.Sfs
open Lib CString

variable {own own' : Owners} {s s' : State} {d : Image} {inode : Block} {dirname name : CString} {dirBid : Nat}

theorem createFile_needs {freeInode : Int} {r : Nat × Block × State} (sound : Sound own s.disk)
    (loaded : nfreemapBlocks s.sb ≠ 0) (used : own dirBid ≠ none)
    (run : createFile s dirBid (s.disk.read dirBid) freeInode inode name = .ok r) :
    name.bytes.length ≤ 503 ∧ 3 ≤ (s.disk.read 1).clearCount := by
  have hd := sound.lt used
  have dirMap := sound.ne_one used
  rw [createFile] at run
  obtain ⟨⟨i, s₁⟩, alloc₁, run⟩ := bind_ok run
  obtain ⟨dir, -, run⟩ := bind_ok run
  obtain ⟨v, filled, run⟩ := bind_ok run
  obtain ⟨⟨f, s₂⟩, alloc₂, run⟩ := bind_ok run
  obtain ⟨⟨c, s₃⟩, alloc₃, -⟩ := bind_ok run
  obtain ⟨rfl, hi, iClear, -, -⟩ := sfsAllocBlock_inv loaded alloc₁
  have iMap := sound.clear_ne_one iClear
  have map₁ : ((s.take i).disk.write dirBid dir).read 1 = (s.disk.read 1).setBit i := by
    rw [Image.read_write_of_ne _ _ (by omega), read_take_map hi iMap]
  have count₁ := Bytes.clearCount_setBit (b := s.disk.read 1) (i := i) (by omega) iClear
  obtain ⟨rfl, hf, fClear, -, -⟩ := @sfsAllocBlock_inv { s.take i with disk := (s.take i).disk.write dirBid dir } _ _ loaded alloc₂
  dsimp only at fClear
  rw [map₁] at fClear
  have fMap : f ≠ 1 := by
    rintro rfl
    rw [Bytes.bit_setBit_of_bit _ (by omega) sound.mapBit] at fClear
    cases fClear
  have map₂ : ((State.take { s.take i with disk := (s.take i).disk.write dirBid dir } f).disk.write i
      (setSize (setFirstFrame v f) 0)).read 1 = ((s.disk.read 1).setBit i).setBit f := by
    rw [Image.read_write_of_ne _ _ (by omega), read_take_map hf fMap, map₁]
  have count₂ := Bytes.clearCount_setBit (b := (s.disk.read 1).setBit i) (i := f) (by omega) fClear
  have free₃ := (sfsAllocBlock_inv (by exact loaded) alloc₃).2.2.2.2
  dsimp only at free₃
  rw [map₂] at free₃
  refine ⟨?_, by omega⟩
  unfold strcpy at filled
  split at filled
  · omega
  · cases filled

/-! ### Where the file is listed -/

theorem sfsOpen_free {fd : Fin 32} (free : findFd s = some fd) {r : Int} (run : sfsOpen s inode dirname name = .ok (r, s')) :
    r = (fd.val : Nat) := by
  rw [sfsOpen, free] at run
  obtain ⟨dirBid, -, run⟩ := bind_ok run
  obtain ⟨scan, -, run⟩ := bind_ok run
  cases scan with
  | found inodeBid inode => exact (Prod.mk.inj (Except.ok.inj run)).1.symm
  | absent freeInode inode =>
    obtain ⟨_, -, run⟩ := bind_ok run
    exact (Prod.mk.inj (Except.ok.inj run)).1.symm

end StorageStack.Sfs
