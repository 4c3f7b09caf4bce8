import StorageStack.Dfs.RoundRobin

/-!
# Growing a file

A modify request for more blocks than a file has should add them behind the last one, on the datanodes that
follow. The new entries are stored, but `blocks_to_allocate` has been counted down when it is added to `blocknum`,
so that the file never gets longer.
-/

namespace StorageStack.Dfs
open Lib CString

variable {n : Namenode} {r : ClientReq} {name : List UInt8} {image image' : FileDesc} {i : Fin MAX_FILE_COUNT}

/-- The datanode at `index` is the next registered one behind the one at `before`, going round. -/
def Follows (n : Namenode) (before index : Fin MAX_DATANODE_NUM) : Prop :=
  ∃ k, turnOf n k = some before ∧ turnOf n (k + 1) = some index

/-- A new entry has its own id and is on the datanode that follows the one of the entry before it. -/
structure Appended (n : Namenode) (image' : FileDesc) (j : Nat) : Prop where
  blockId : (image'.entry j).blockId = j
  next : ∃ before index, (image'.entry (j - 1)).dnId = before.val + 1 ∧ Follows n before index ∧
    (image'.entry j).dnId = index.val + 1

/-- The file has the blocks it had and those that the request needs, in the reply, in the table and in the reply
to a later read request. -/
def GrowsAsNeeded (n : Namenode) (r : ClientReq) (name : List UInt8) (i : Fin MAX_FILE_COUNT) (image : FileDesc) : Prop :=
  ∃ image' n', getFileUpdatePoint n r = .ok (some (.file image'), n') ∧ n'.fileImages i = some image' ∧
    image'.blocknum = max image.blocknum (blocksFor r.fileSize) ∧
    (∀ j : Nat, (j : Int) < image.blocknum → image'.entry j = image.entry j) ∧
    (∀ j : Nat, image.blocknum ≤ j → (j : Int) < image'.blocknum → Appended n image' j) ∧
    ∀ read : ClientReq, cstr read.fileName = .ok name → getFileLocation n' read = .ok (some (.file image'), n')

theorem blockCount_le {size : Int} (int : -2147483648 ≤ size) (some : 1 ≤ image.blocknum) (few : blocksFor size ≤ 100)
    (enough : blocksFor size ≤ image.blocknum) : blockCount size ≤ image.blocknum := by
  by_cases low : 0 ≤ size
  · rw [(blockCount_blocksFor low few).1]
    exact enough
  · have sum : toInt32 (size + 1023) = size + 1023 := toInt32_of_range (by omega) (by omega)
    show (toInt32 (size + 1023)).tdiv 1024 ≤ image.blocknum
    rw [sum]
    by_cases above : 0 ≤ size + 1023
    · rw [Int.tdiv_eq_ediv_of_nonneg above]
      omega
    · have opposite : 0 ≤ (-(size + 1023)).tdiv 1024 := Int.tdiv_nonneg (by omega) (by decide)
      rw [Int.neg_tdiv] at opposite
      omega

theorem findImage_at (table : TableOk n) (there : ImageAt n name i image) :
    findImage n name (List.finRange MAX_FILE_COUNT) = .ok (some (i, image)) := by
  rcases findImage_cases table (cstr_nonzero there.name) with ⟨j, other, here, found⟩ | ⟨absent, -⟩
  · obtain rfl := table.distinct j i other image name here there
    rw [found, Option.some.inj (here.entry.symm.trans there.entry)]
  · exact absurd there (absent i image)

/-! ### What the code does -/

theorem getFileLocation_at (table : TableOk n) (there : ImageAt n name i image) (string : cstr r.fileName = .ok name) :
    getFileLocation n r = .ok (some (.file image), n) := by
  rw [getFileLocation, string, ok_bind, findImage_at table there, ok_bind]

theorem getFileUpdatePoint_enough (table : TableOk n) (there : ImageAt n name i image) (string : cstr r.fileName = .ok name)
    (enough : blockCount r.fileSize ≤ image.blocknum) : getFileUpdatePoint n r = .ok (some (.file image), n) := by
  rw [getFileUpdatePoint, string, ok_bind, findImage_at table there, ok_bind]
  dsimp only
  rw [if_neg (not_lt.mpr enough)]

/-- Otherwise the entries behind the last one are placed on one datanode, and the file is as long as it was. -/
theorem getFileUpdatePoint_more (table : TableOk n) (registered : Registered n) (there : ImageAt n name i image)
    (string : cstr r.fileName = .ok name) (low : 0 ≤ r.fileSize) (few : blocksFor r.fileSize ≤ 100)
    (more : image.blocknum < blocksFor r.fileSize) : ∃ image', image'.blocknum = image.blocknum ∧
      getFileUpdatePoint n r = .ok (some (.file image'), { n with fileImages := Function.update n.fileImages i (some image') }) ∧
      (∀ j : Nat, (j : Int) < image.blocknum → image'.entry j = image.entry j) ∧
      ∃ found : Fin MAX_DATANODE_NUM, ∀ j : Nat, image.blocknum ≤ j → (j : Int) < blocksFor r.fileSize →
        PlacedOn n name (fun _ => .zero) j found (image'.entry j) := by
  have blocknum := table.blocknum i image there.entry
  have fits := cstr_length string
  obtain ⟨lo, below⟩ := Int.eq_ofNat_of_zero_le blocknum.1
  obtain ⟨count, blocks⟩ := Int.eq_ofNat_of_zero_le (show 0 ≤ blocksFor r.fileSize - image.blocknum by omega)
  have last : image.block image.blocknum = .ok (image.entry lo) := by
    rw [below]
    exact block_ok image (show lo < 100 by omega)
  obtain ⟨index, start⟩ := datanodeIndex_ok (table.nodes i image there.entry lo)
  obtain ⟨node, visits⟩ := exists_visits registered 0 index
  have stays := visits.stays
  obtain ⟨image', run, assigned, placed⟩ := @assignBlocks_visits n name (fun _ => .zero) image 0 node (cstr_nonzero string)
    (by omega) count lo (show lo + count ≤ 100 by omega) index visits
  refine ⟨image', assigned.blocknum, ?_, fun j before => assigned.kept j (by omega), node 0, fun j low high => ?_⟩
  · rw [getFileUpdatePoint, string, ok_bind, findImage_at table there, ok_bind]
    dsimp only
    rw [(blockCount_blocksFor low few).1, if_pos more, last, ok_bind, start, ok_bind, blocks, Int.toNat_natCast, below, run,
      ok_bind]
  · have here := placed (j - lo) (by omega)
    rwa [stays, show lo + (j - lo) = j by omega] at here

/-! ### When the file grows as it should -/

/-- The datanodes of the file's blocks are registered. -/
def HoldersRegistered (n : Namenode) (image : FileDesc) : Prop :=
  ∀ j : Nat, (j : Int) < image.blocknum → ∃ index : Fin MAX_DATANODE_NUM, (image.entry j).dnId = index.val + 1 ∧
    (n.dnlist index).isSome

theorem GrowsAsNeeded.enough (grows : GrowsAsNeeded n r name i image) (table : TableOk n) (there : ImageAt n name i image)
    (string : cstr r.fileName = .ok name) (some : 1 ≤ image.blocknum) (holders : HoldersRegistered n image)
    (few : blocksFor r.fileSize ≤ 100) : blocksFor r.fileSize ≤ image.blocknum := by
  obtain ⟨image', n', run, -, longer, -⟩ := grows
  by_contra more
  have registered : Registered n := by
    obtain ⟨index, -, here⟩ := holders 0 (by omega)
    exact ⟨index, here⟩
  have low : 0 ≤ r.fileSize := by
    have count : blocksFor r.fileSize = (r.fileSize + 1023) / 1024 := rfl
    omega
  obtain ⟨image₁, same, run₁, -⟩ := getFileUpdatePoint_more table registered there string low few (by omega)
  obtain ⟨reply, -⟩ := Prod.mk.inj (Except.ok.inj (run.symm.trans run₁))
  obtain rfl := Reply.file.inj (Option.some.inj reply)
  omega

theorem growsAsNeeded_of_enough (table : TableOk n) (there : ImageAt n name i image) (string : cstr r.fileName = .ok name)
    (int : -2147483648 ≤ r.fileSize) (some : 1 ≤ image.blocknum) (few : blocksFor r.fileSize ≤ 100)
    (enough : blocksFor r.fileSize ≤ image.blocknum) : GrowsAsNeeded n r name i image := by
  refine ⟨image, n, getFileUpdatePoint_enough table there string (blockCount_le int some few enough), there.entry, by omega,
    fun _ _ => rfl, fun j low high => by omega, fun read string' => getFileLocation_at table there string'⟩

/-- A modify request makes a file as long as it needs exactly when the file is that long already. -/
theorem grows_as_needed_iff (table : TableOk n) (there : ImageAt n name i image) (string : cstr r.fileName = .ok name)
    (int : -2147483648 ≤ r.fileSize) (some : 1 ≤ image.blocknum) (holders : HoldersRegistered n image)
    (few : blocksFor r.fileSize ≤ MAX_FILE_BLK_COUNT) :
    GrowsAsNeeded n r name i image ↔ blocksFor r.fileSize ≤ image.blocknum :=
  ⟨fun grows => grows.enough table there string some holders few,
    fun enough => growsAsNeeded_of_enough table there string int some few enough⟩

/-! ### One file in the table -/

def Namenode.withFile (n : Namenode) (image : FileDesc) : Namenode :=
  { n with fileImages := fun i => if i.val = 0 then some image else none }

theorem withFile_entry {other : FileDesc} (entry : (n.withFile image).fileImages i = some other) : i = 0 ∧ other = image := by
  unfold Namenode.withFile at entry
  dsimp only at entry
  split at entry
  · rename_i first
    exact ⟨Fin.ext first, (Option.some.inj entry).symm⟩
  · cases entry

theorem withFile_imageAt (string : cstr image.filename = .ok name) : ImageAt (n.withFile image) name 0 image := ⟨rfl, string⟩

theorem withFile_table (n : Namenode) (string : cstr image.filename = .ok name)
    (range : 0 ≤ image.blocknum ∧ image.blocknum ≤ MAX_FILE_BLK_COUNT) (nodes : ∀ k, 0 ≤ (image.entry k).dnId) :
    TableOk (n.withFile image) := by
  constructor
  case named =>
    intro i other entry
    rw [(withFile_entry entry).2]
    exact ends_of_cstr string
  case distinct =>
    intro i j other other' name' there there'
    rw [(withFile_entry there.entry).1, (withFile_entry there'.entry).1]
  case filled =>
    refine ⟨1, fun i => ?_⟩
    show (if i.val = 0 then some image else none).isSome ↔ i.val < 1
    split
    · exact iff_of_true rfl (by omega)
    · exact iff_of_false Bool.false_ne_true (by omega)
  case blocknum =>
    intro i other entry
    rw [(withFile_entry entry).2]
    exact range
  case nodes =>
    intro i other entry
    rw [(withFile_entry entry).2]
    exact nodes

/-- A file of 1024 bytes whose block is on datanode 3. -/
def oneBlock : FileDesc :=
  { FileDesc.zero with
    filename := letterName
    blockList := Function.update FileDesc.zero.blockList 0
      ⟨letterName, 3, 0, Bytes.zero.patch 0 loopback.text.bytes, 50060, .zero⟩
    fileSize := 1024
    blocknum := 1 }

theorem oneBlock_table : TableOk (twoDatanodes.withFile oneBlock) := by
  refine withFile_table twoDatanodes cstr_letterName (by decide) fun k => ?_
  unfold FileDesc.entry
  split
  · rename_i inside
    exact (show ∀ k : Fin 100, 0 ≤ (oneBlock.blockList k).dnId by decide) ⟨k, inside⟩
  · decide

theorem oneBlock_holders : HoldersRegistered (twoDatanodes.withFile oneBlock) oneBlock := by
  intro j below
  obtain rfl : j = 0 := by
    have one : oneBlock.blocknum = 1 := rfl
    omega
  exact ⟨2, by decide, by decide⟩

/-- A request for one block finds it. -/
theorem one_block_is_enough : GrowsAsNeeded (twoDatanodes.withFile oneBlock) ⟨letterName, 1000, 3⟩ [102] 0 oneBlock :=
  (@grows_as_needed_iff (twoDatanodes.withFile oneBlock) ⟨letterName, 1000, 3⟩ [102] oneBlock 0 oneBlock_table
    (withFile_imageAt cstr_letterName) cstr_letterName (by decide) (by decide) oneBlock_holders (by decide)).mpr (by decide)

/-- A request for a second block leaves the file with one. -/
theorem second_block_missing : ¬ ∀ (n : Namenode) (r : ClientReq) (name : List UInt8) (i : Fin MAX_FILE_COUNT) (image : FileDesc),
    TableOk n → ImageAt n name i image → cstr r.fileName = .ok name → 0 ≤ r.fileSize → 1 ≤ image.blocknum →
    HoldersRegistered n image → blocksFor r.fileSize ≤ MAX_FILE_BLK_COUNT → GrowsAsNeeded n r name i image := by
  intro claim
  have grows := claim (twoDatanodes.withFile oneBlock) ⟨letterName, 2000, 3⟩ [102] 0 oneBlock oneBlock_table
    (withFile_imageAt cstr_letterName) cstr_letterName (by decide) (by decide) oneBlock_holders (by decide)
  have enough := grows.enough oneBlock_table (withFile_imageAt cstr_letterName) cstr_letterName (by decide) oneBlock_holders
    (by decide)
  exact absurd enough (by decide)

end StorageStack.Dfs
