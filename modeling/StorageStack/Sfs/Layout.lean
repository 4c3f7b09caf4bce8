import StorageStack.Lib.CString
import StorageStack.Lib.Machine

/-!
# Blocks of the file system

Every block of the image is 512 bytes. What a block means depends on how the code reached it: the
superblock, a directory, an inode and a frame are four ways to read the same bytes, and the words and
names below are the members of the C structures at their offsets.
-/

namespace StorageStack.Sfs
open Lib

abbrev Block := Bytes 512

/-- The image file, long enough for every block anyone asks for. -/
@[ext] structure Image where
  blocks : Nat → Block

/-- The offset `bid * BLOCK_SIZE` is computed in 32 bits. -/
def Image.read (d : Image) (bid : Nat) : Block := d.blocks (bid % 8388608)

def Image.write (d : Image) (bid : Nat) (b : Block) : Image :=
  ⟨fun i => if i = bid % 8388608 then b else d.blocks i⟩

theorem Image.read_write (d : Image) (bid : Nat) (b : Block) : (d.write bid b).read bid = b := if_pos rfl

theorem Image.read_write_of_ne (d : Image) {bid other : Nat} (b : Block) (h : other % 8388608 ≠ bid % 8388608) :
    (d.write bid b).read other = d.read other := if_neg h

theorem Image.read_congr (d : Image) {bid other : Nat} (h : bid % 8388608 = other % 8388608) : d.read bid = d.read other := by
  rw [read, read, h]

theorem Image.write_read (d : Image) (bid : Nat) : d.write bid (d.read bid) = d := by
  ext i
  simp only [write, read]
  split
  · rename_i same
    rw [same]
  · rfl

def Image.blank : Image := ⟨fun _ => .zero⟩

@[simp] theorem Image.read_blank (bid : Nat) : blank.read bid = .zero := rfl

attribute [irreducible] Image.read Image.write

/-! ### `sfs_superblock_t` -/

def SFS_MAGIC : Nat := 0xAABBCCDD

def magic (sb : Block) : Nat := sb.word 0
def nblocks (sb : Block) : Nat := sb.word 1
def nfreemapBlocks (sb : Block) : Nat := sb.word 2
def firstDir (sb : Block) : Nat := sb.word 3
def setFirstDir (sb : Block) (bid : Nat) : Block := sb.setWord 3 bid

/-! ### `sfs_dirblock_t` -/

def SFS_DB_NINODES : Nat := 97

def nextDir (dir : Block) : Nat := dir.word 0
def setNextDir (dir : Block) (bid : Nat) : Block := dir.setWord 0 bid
/-- The memory from `dir_name` to the end of the structure. -/
def dirName (dir : Block) : List UInt8 := dir.toList.drop 4
def inodes (dir : Block) (k : Nat) : Nat := dir.word (31 + k)

/-- `dir.inodes[k] = bid`. An index outside the array but inside the structure hits another member. -/
def setInodes (dir : Block) (k : Int) (bid : Nat) : Outcome Block :=
  if 0 ≤ 31 + k ∧ 31 + k < 128 then .ok (dir.setWord (31 + k).toNat bid) else .error .undefined

/-! ### `sfs_inode_t` -/

def size (inode : Block) : Nat := inode.word 0
def setSize (inode : Block) (n : Nat) : Block := inode.setWord 0 n
def firstFrame (inode : Block) : Nat := inode.word 1
def setFirstFrame (inode : Block) (bid : Nat) : Block := inode.setWord 1 bid
/-- The memory from `file_name` to the end of the structure. -/
def fileName (inode : Block) : List UInt8 := inode.toList.drop 8

/-! ### `sfs_inode_frame_t` -/

def SFS_FRAME_COUNT : Nat := 127

def nextFrame (frame : Block) : Nat := frame.word 0
def setNextFrame (frame : Block) (bid : Nat) : Block := frame.setWord 0 bid
def content (frame : Block) (j : Nat) : Nat := frame.word (1 + j)
def setContent (frame : Block) (j bid : Nat) : Block := frame.setWord (1 + j) bid

/-! ### Reading members back -/

theorem word_setWord {b : Block} {k j v : Nat} (hk : k < 128) (hv : v < 4294967296) :
    (b.setWord k v).word j = if j = k then v else b.word j :=
  Bytes.word_setWord b (by omega) hv

section
variable {b : Block} {v k j : Nat}

@[simp] theorem firstDir_setFirstDir (h : v < 4294967296) : firstDir (setFirstDir b v) = v := by
  rw [firstDir, setFirstDir, word_setWord (by decide) h, if_pos rfl]

@[simp] theorem magic_setFirstDir : magic (setFirstDir b v) = magic b := Bytes.word_setWord_of_ne _ (by decide)
@[simp] theorem nblocks_setFirstDir : nblocks (setFirstDir b v) = nblocks b := Bytes.word_setWord_of_ne _ (by decide)
@[simp] theorem nfreemapBlocks_setFirstDir : nfreemapBlocks (setFirstDir b v) = nfreemapBlocks b :=
  Bytes.word_setWord_of_ne _ (by decide)

@[simp] theorem nextDir_setNextDir (h : v < 4294967296) : nextDir (setNextDir b v) = v := by
  rw [nextDir, setNextDir, word_setWord (by decide) h, if_pos rfl]

@[simp] theorem inodes_setNextDir : inodes (setNextDir b v) k = inodes b k := Bytes.word_setWord_of_ne _ (by omega)

@[simp] theorem dirName_setNextDir : dirName (setNextDir b v) = dirName b :=
  Bytes.toList_drop_congr fun i hi _ => Bytes.get_setWord_of_ne _ (by omega)

@[simp] theorem firstFrame_setSize : firstFrame (setSize b v) = firstFrame b := Bytes.word_setWord_of_ne _ (by decide)

@[simp] theorem size_setSize (h : v < 4294967296) : size (setSize b v) = v := by
  rw [size, setSize, word_setWord (by decide) h, if_pos rfl]

@[simp] theorem firstFrame_setFirstFrame (h : v < 4294967296) : firstFrame (setFirstFrame b v) = v := by
  rw [firstFrame, setFirstFrame, word_setWord (by decide) h, if_pos rfl]

@[simp] theorem fileName_setSize : fileName (setSize b v) = fileName b :=
  Bytes.toList_drop_congr fun i hi _ => Bytes.get_setWord_of_ne _ (by omega)

@[simp] theorem fileName_setFirstFrame : fileName (setFirstFrame b v) = fileName b :=
  Bytes.toList_drop_congr fun i hi _ => Bytes.get_setWord_of_ne _ (by omega)

@[simp] theorem nextFrame_setNextFrame (h : v < 4294967296) : nextFrame (setNextFrame b v) = v := by
  rw [nextFrame, setNextFrame, word_setWord (by decide) h, if_pos rfl]

@[simp] theorem content_setNextFrame : content (setNextFrame b v) j = content b j :=
  Bytes.word_setWord_of_ne _ (by omega)

@[simp] theorem nextFrame_setContent : nextFrame (setContent b j v) = nextFrame b :=
  Bytes.word_setWord_of_ne _ (by omega)

theorem content_setContent (hj : j < SFS_FRAME_COUNT) (h : v < 4294967296) :
    content (setContent b j v) k = if k = j then v else content b k := by
  rw [content, setContent, word_setWord (by unfold SFS_FRAME_COUNT at hj; omega) h]
  by_cases same : k = j
  · rw [if_pos same, if_pos (by omega)]
  · rw [if_neg same, if_neg (by omega), content]

theorem content_setContent_of_ne (h : k ≠ j) : content (setContent b j v) k = content b k :=
  Bytes.word_setWord_of_ne _ (by omega)

end

/-! ### State -/

/-- `fd_struct_t`. -/
structure Fd where
  inode : Block
  inodeBid : Nat
  dirBid : Nat
  cur : Nat
  valid : Nat

/-- The globals of `fs.c` and the image behind them. -/
structure State where
  sb : Block
  freemap : Block
  fdtable : Fin 32 → Fd
  disk : Image

/-- The globals before anything ran, with an empty image. -/
def State.initial : State :=
  { sb := .zero, freemap := .zero, fdtable := fun _ => ⟨.zero, 0, 0, 0, 0⟩, disk := .blank }

def State.setFd (s : State) (fd : Fin 32) (entry : Fd) : State :=
  { s with fdtable := fun i => if i = fd then entry else s.fdtable i }

@[simp] theorem setFd_disk (s : State) (fd : Fin 32) (entry : Fd) : (s.setFd fd entry).disk = s.disk := rfl
@[simp] theorem setFd_sb (s : State) (fd : Fin 32) (entry : Fd) : (s.setFd fd entry).sb = s.sb := rfl
@[simp] theorem setFd_freemap (s : State) (fd : Fin 32) (entry : Fd) : (s.setFd fd entry).freemap = s.freemap := rfl
@[simp] theorem setFd_self (s : State) (fd : Fin 32) (entry : Fd) : (s.setFd fd entry).fdtable fd = entry := if_pos rfl
theorem setFd_of_ne (s : State) {fd i : Fin 32} (entry : Fd) (h : i ≠ fd) : (s.setFd fd entry).fdtable i = s.fdtable i :=
  if_neg h

def fdIndex (fd : Int) : Outcome (Fin 32) :=
  if h : 0 ≤ fd ∧ fd < 32 then .ok ⟨fd.toNat, by omega⟩ else .error .undefined

end StorageStack.Sfs
