import StorageStack.Dfs.Registration
import StorageStack.Dfs.UpdatePoint

/-!
# Pushing a file again

A write request for a known file should leave the entry that a first one would make. Its blocks are counted
from the old `blocknum` on, while the loop that places them starts with the first datanode, and `file_size` is
only stored for a new entry.
-/

namespace StorageStack.Dfs
open Lib CString

variable {n n₀ : Namenode} {r : ClientReq} {name : List UInt8} {fileBlock : Int → BlockDesc} {image image' : FileDesc}
  {i : Fin MAX_FILE_COUNT} {index : Fin MAX_DATANODE_NUM} {block block' : BlockDesc} {j : Nat}

/-- The members that are stored to; strings count up to their end. -/
structure SameBlock (block block' : BlockDesc) : Prop where
  owner : cstr block.ownerName = cstr block'.ownerName
  dnId : block.dnId = block'.dnId
  blockId : block.blockId = block'.blockId
  ip : cstr block.locIp = cstr block'.locIp
  port : block.locPort = block'.locPort

/-- The request leaves the file size, the number of blocks and the blocks that it would leave for a new file, with the
same datanodes. -/
def ReplacesEntry (n : Namenode) (r : ClientReq) (name : List UInt8) (i : Fin MAX_FILE_COUNT) : Prop :=
  ∀ (fileBlock fileBlock' : Int → BlockDesc) (n₀ : Namenode), n₀.dnlist = n.dnlist → FirstWrite n₀ r name →
    ∃ image n' image₀ n₀', getFileReceivers n r fileBlock = .ok (some (.file image), n') ∧ n'.fileImages i = some image ∧
      getFileReceivers n₀ r fileBlock' = .ok (some (.file image₀), n₀') ∧ image.fileSize = image₀.fileSize ∧
      image.blocknum = image₀.blocknum ∧ ∀ j : Nat, (j : Int) < image.blocknum → SameBlock (image.entry j) (image₀.entry j)

/-- Block `j` of the file, on the datanode whose turn is `j`. -/
structure InTurn (n : Namenode) (name : List UInt8) (j : Nat) (block : BlockDesc) : Prop where
  owner : cstr block.ownerName = .ok name
  blockId : block.blockId = j
  node : ∃ index datanode, turnOf n j = some index ∧ n.dnlist index = some datanode ∧ block.dnId = index.val + 1 ∧
    cstr block.locIp = .ok datanode.ip.text.bytes ∧ block.locPort = datanode.port

/-- The file keeps its size, both counts together fit, the blocks that stay are where a first request would place
them now, and the others start with the first datanode again. -/
structure Replaceable (n : Namenode) (r : ClientReq) (name : List UInt8) (image : FileDesc) : Prop where
  fileSize : image.fileSize = r.fileSize
  room : image.blocknum + blocksFor r.fileSize ≤ MAX_FILE_BLK_COUNT
  stay : ∀ j : Nat, (j : Int) < image.blocknum → (j : Int) < blocksFor r.fileSize → InTurn n name j (image.entry j)
  round : image.blocknum < blocksFor r.fileSize → ((datanodes n).length : Int) ∣ image.blocknum

/-! ### The entry for a request -/

theorem findImage_missing (table : TableOk n) (nonzero : ∀ c ∈ name, c ≠ 0) (absent : ∀ i image, ¬ ImageAt n name i image) :
    findImage n name (List.finRange MAX_FILE_COUNT) = .ok none := by
  rcases findImage_cases table nonzero with ⟨j, image, there, -⟩ | ⟨-, missing⟩
  · exact absurd there (absent j image)
  · exact missing

theorem imageFor_at (table : TableOk n) (there : ImageAt n name i image) : imageFor n r name = .ok (some (i, image)) := by
  rw [imageFor, findImage_at table there, ok_bind]

theorem imageFor_new (table : TableOk n) (string : cstr r.fileName = .ok name) (absent : ∀ i image, ¬ ImageAt n name i image)
    (free : ∃ i, n.fileImages i = none) : ∃ found, imageFor n r name = .ok (some found) ∧ found.2.blocknum = 0 := by
  obtain ⟨i, empty⟩ := free
  obtain ⟨place, first, -⟩ := freePlace empty
  have filename := strcpy_ok FileDesc.zero.filename (s := name) (cstr_length string)
  refine ⟨(place, { FileDesc.zero with
    filename := FileDesc.zero.filename.patch 0 (name ++ [0]), fileSize := r.fileSize }), ?_, rfl⟩
  rw [imageFor, findImage_missing table (cstr_nonzero string) absent, ok_bind]
  dsimp only
  rw [first]
  dsimp only
  rw [filename, ok_bind]

theorem imageFor_refused (table : TableOk n) (nonzero : ∀ c ∈ name, c ≠ 0) (absent : ∀ i image, ¬ ImageAt n name i image)
    (full : ∀ i, (n.fileImages i).isSome) : imageFor n r name = .ok none := by
  have taken : (List.finRange MAX_FILE_COUNT).find? (fun i => (n.fileImages i).isNone) = none := by
    rw [List.find?_eq_none]
    intro i _ free
    have here := full i
    rw [Option.isNone_iff_eq_none.mp free] at here
    cases here
  rw [imageFor, findImage_missing table nonzero absent, ok_bind]
  dsimp only
  rw [taken]

/-! ### Blocks in turn -/

theorem isRegistered_congr (same : n₀.dnlist = n.dnlist) : isRegistered n₀ = isRegistered n := by
  funext i
  rw [isRegistered, isRegistered, same]

theorem turnOf_congr (same : n₀.dnlist = n.dnlist) : turnOf n₀ = turnOf n := by
  funext k
  rw [turnOf, turnOf, isRegistered_congr same]

theorem InTurn.congr (same : n₀.dnlist = n.dnlist) (turn : InTurn n₀ name j block) : InTurn n name j block := by
  obtain ⟨owner, blockId, node⟩ := turn
  rw [turnOf_congr same, same] at node
  exact ⟨owner, blockId, node⟩

theorem PlacedOn.inTurn (placed : PlacedOn n name fileBlock j index block) (turn : turnOf n j = some index) :
    InTurn n name j block := by
  obtain ⟨datanode, entry, ip, port⟩ := placed.node
  exact ⟨placed.owner, placed.id, index, datanode, turn, entry, placed.dnId, ip, port⟩

theorem InTurn.same (turn : InTurn n name j block) (turn' : InTurn n name j block') : SameBlock block block' := by
  obtain ⟨owner, blockId, index, datanode, here, entry, dnId, ip, port⟩ := turn
  obtain ⟨owner', blockId', index', datanode', here', entry', dnId', ip', port'⟩ := turn'
  obtain rfl := Option.some.inj (here.symm.trans here')
  obtain rfl := Option.some.inj (entry.symm.trans entry')
  exact ⟨owner.trans owner'.symm, dnId.trans dnId'.symm, blockId.trans blockId'.symm, ip.trans ip'.symm, port.trans port'.symm⟩

theorem SameBlock.inTurn (same : SameBlock block block') (turn : InTurn n name j block') : InTurn n name j block := by
  obtain ⟨owner, blockId, index, datanode, here, entry, dnId, ip, port⟩ := turn
  exact ⟨same.owner.trans owner, same.blockId.trans blockId, index, datanode, here, entry, same.dnId.trans dnId,
    same.ip.trans ip, same.port.trans port⟩

/-- Two turns of one datanode are whole rounds apart. -/
theorem turnOf_inj {j k : Nat} (turn : turnOf n j = some index) (turn' : turnOf n k = some index) :
    j % (datanodes n).length = k % (datanodes n).length := by
  rw [turnOf_eq] at turn turn'
  obtain ⟨inside, -⟩ := List.getElem?_eq_some_iff.mp turn
  exact (List.getElem?_inj inside (nodup_datanodes n)).mp (turn.trans turn'.symm)

/-! ### Both requests -/

/-- A write request for a known file places the blocks behind those that the file has. -/
theorem getFileReceivers_known {node : Nat → Fin MAX_DATANODE_NUM} (table : TableOk n) (there : ImageAt n name i image)
    (string : cstr r.fileName = .ok name) (low : 0 ≤ r.fileSize) (room : image.blocknum + blocksFor r.fileSize ≤ 100)
    (visits : Visits n 1 0 node) (fileBlock : Int → BlockDesc) : ∃ image', image'.fileSize = image.fileSize ∧
      image'.blocknum = blocksFor r.fileSize ∧ getFileReceivers n r fileBlock =
        .ok (some (.file image'), { n with fileImages := Function.update n.fileImages i (some image') }) ∧
      (∀ j : Nat, (j : Int) < image.blocknum → image'.entry j = image.entry j) ∧
      ∀ j : Nat, image.blocknum ≤ j → (j : Int) < image.blocknum + blocksFor r.fileSize →
        PlacedOn n name fileBlock j (node (j - image.blocknum.toNat)) (image'.entry j) := by
  have blocknum := table.blocknum i image there.entry
  have fits := cstr_length string
  obtain ⟨count, some⟩ := blockCount_blocksFor low (by omega)
  obtain ⟨lo, below⟩ := Int.eq_ofNat_of_zero_le blocknum.1
  obtain ⟨blocks, few⟩ := Int.eq_ofNat_of_zero_le some
  obtain ⟨image', run, assigned, placed⟩ := @assignBlocks_visits n name fileBlock { image with blocknum := blocksFor r.fileSize }
    1 node (cstr_nonzero string) (by omega) blocks lo (show lo + blocks ≤ 100 by omega) 0 visits
  refine ⟨image', assigned.fileSize, assigned.blocknum, ?_, fun j before => assigned.kept j (by omega), fun j low high => ?_⟩
  · rw [getFileReceivers, string, ok_bind, imageFor, findImage_at table there, ok_bind]
    dsimp only
    rw [ok_bind]
    dsimp only
    rw [count, show (blocksFor r.fileSize).toNat = blocks by omega, below, run, ok_bind]
  · have here := placed (j - lo) (by omega)
    rw [show lo + (j - lo) = j by omega] at here
    rwa [show j - image.blocknum.toNat = j - lo by omega]

theorem getFileReceivers_room {reply : Option Reply} {n' : Namenode} (table : TableOk n) (there : ImageAt n name i image)
    (string : cstr r.fileName = .ok name) (low : 0 ≤ r.fileSize) (few : blocksFor r.fileSize ≤ 100)
    (run : getFileReceivers n r fileBlock = .ok (reply, n')) : image.blocknum + blocksFor r.fileSize ≤ 100 := by
  have blocknum : image.blocknum ≤ 100 := (table.blocknum i image there.entry).2
  obtain ⟨count, -⟩ := blockCount_blocksFor low few
  rw [getFileReceivers, string, ok_bind, imageFor, findImage_at table there, ok_bind] at run
  dsimp only at run
  rw [ok_bind] at run
  obtain ⟨image', placed, -⟩ := bind_ok run
  by_cases some : 0 < (blockCount r.fileSize).toNat
  · have range : image.blocknum + (blockCount r.fileSize).toNat ≤ 100 := (assignBlocks_range some placed).2
    omega
  · omega

/-- A first write request with the same datanodes leaves its blocks in turn. -/
theorem FirstWrite.inTurn (first : FirstWrite n₀ r name) (same : n₀.dnlist = n.dnlist) (registered : datanodes n ≠ [])
    (low : 0 ≤ r.fileSize) (few : blocksFor r.fileSize ≤ 100) (fileBlock : Int → BlockDesc) :
    ∃ image₀ n₀', getFileReceivers n₀ r fileBlock = .ok (some (.file image₀), n₀') ∧ image₀.fileSize = r.fileSize ∧
      image₀.blocknum = blocksFor r.fileSize ∧
      ∀ j : Nat, (j : Int) < blocksFor r.fileSize → InTurn n name j (image₀.entry j) := by
  have registered₀ : Registered n₀ := by
    obtain ⟨i, there⟩ := registered_iff.mpr registered
    exact ⟨i, same ▸ there⟩
  obtain ⟨count, some⟩ := blockCount_blocksFor low few
  obtain ⟨blocks, eq⟩ := Int.eq_ofNat_of_zero_le some
  obtain ⟨node, visits⟩ := exists_visits registered₀ 1 0
  obtain ⟨place, image₀, -, run, -, fileSize, blocknum, placed⟩ :=
    first.run (count.trans eq) (show blocks ≤ 100 by omega) visits fileBlock
  refine ⟨image₀, _, run, fileSize, blocknum.trans eq.symm, fun j below => ?_⟩
  have turn := visits.turns (t := 0) rfl j
  rw [Nat.zero_add] at turn
  exact ((placed j (by omega)).inTurn turn).congr same

/-- The table without files. -/
def Namenode.withoutFiles (n : Namenode) : Namenode := { n with fileImages := fun _ => none }

theorem withoutFiles_first (kind : r.reqType = 1) (string : cstr r.fileName = .ok name) :
    FirstWrite n.withoutFiles r name where
  named := fun i image entry => by cases entry
  absent := fun i image entry => by cases entry
  free := ⟨0, rfl⟩
  kind := kind
  string := string

/-! ### When the entry is replaced -/

theorem ReplacesEntry.replaceable (replaces : ReplacesEntry n r name i) (table : TableOk n) (registered : datanodes n ≠ [])
    (there : ImageAt n name i image) (kind : r.reqType = 1) (string : cstr r.fileName = .ok name) (low : 0 ≤ r.fileSize)
    (few : blocksFor r.fileSize ≤ 100) : Replaceable n r name image := by
  have first := withoutFiles_first (n := n) kind string
  obtain ⟨image', n', image₀, n₀', run, -, run₀, sizes, -, blocks⟩ := 
    replaces (fun _ => .zero) (fun _ => .zero) n.withoutFiles rfl first
  have room := getFileReceivers_room table there string low few run
  obtain ⟨node, visits⟩ := exists_visits (registered_iff.mpr registered) 1 0
  obtain ⟨image₁, fileSize, blocknum, run₁, kept, placed⟩ :=
    getFileReceivers_known table there string low room visits fun _ => .zero
  obtain ⟨reply, -⟩ := Prod.mk.inj (Except.ok.inj (run.symm.trans run₁))
  obtain rfl := Reply.file.inj (Option.some.inj reply)
  obtain ⟨image₂, _, run₂, fileSize₂, -, turns⟩ := 
    first.inTurn (n := n) rfl registered low few fun _ => .zero
  obtain ⟨reply, -⟩ := Prod.mk.inj (Except.ok.inj (run₀.symm.trans run₂))
  obtain rfl := Reply.file.inj (Option.some.inj reply)
  refine ⟨by rw [← fileSize, sizes, fileSize₂], room, fun j before below => ?_, fun more => ?_⟩
  · rw [← kept j before]
    exact (blocks j (by omega)).inTurn (turns j below)
  · have nonneg := (table.blocknum i image there.entry).1
    obtain ⟨lo, eq⟩ := Int.eq_ofNat_of_zero_le nonneg
    -- Block `lo` is on the first datanode and has the turn `lo`.
    have here := placed lo (by omega) (by omega)
    rw [show lo - image.blocknum.toNat = 0 by omega] at here
    obtain ⟨-, -, index, datanode, turn, -, dnId, -⟩ := (blocks lo (by omega)).inTurn (turns lo (by omega))
    obtain rfl : node 0 = index := by
      have same := here.dnId.symm.trans dnId
      exact Fin.ext (by omega)
    have zero := turnOf_inj turn (visits.turns (t := 0) rfl 0)
    rw [Nat.zero_add, Nat.zero_mod] at zero
    rw [eq]
    exact Int.natCast_dvd_natCast.mpr (Nat.dvd_of_mod_eq_zero zero)

theorem Replaceable.replaces (replaceable : Replaceable n r name image) (table : TableOk n) (registered : datanodes n ≠ [])
    (there : ImageAt n name i image) (string : cstr r.fileName = .ok name) (low : 0 ≤ r.fileSize)
    (few : blocksFor r.fileSize ≤ 100) : ReplacesEntry n r name i := by
  intro fileBlock fileBlock' n₀ same first
  obtain ⟨node, visits⟩ := exists_visits (registered_iff.mpr registered) 1 0
  obtain ⟨image', fileSize, blocknum, run, kept, placed⟩ :=
    getFileReceivers_known table there string low replaceable.room visits fileBlock
  obtain ⟨image₀, n₀', run₀, fileSize₀, blocknum₀, turns⟩ := first.inTurn same registered low few fileBlock'
  refine ⟨image', _, image₀, n₀', run, Function.update_self .., run₀, ?_, blocknum.trans blocknum₀.symm, fun j below => ?_⟩
  · rw [fileSize, replaceable.fileSize, fileSize₀]
  · rw [blocknum] at below
    suffices turn : InTurn n name j (image'.entry j) from turn.same (turns j below)
    by_cases before : (j : Int) < image.blocknum
    · rw [kept j before]
      exact replaceable.stay j before below
    · have nonneg := (table.blocknum i image there.entry).1
      obtain ⟨lo, eq⟩ := Int.eq_ofNat_of_zero_le nonneg
      have whole := replaceable.round (by omega)
      rw [eq] at whole
      obtain ⟨rounds, rfl⟩ := Int.natCast_dvd_natCast.mp whole
      have here := placed j (by omega) (by omega)
      rw [show image.blocknum.toNat = (datanodes n).length * rounds by omega] at here
      refine here.inTurn ?_
      rw [← visits.turns (t := 0) rfl (j - (datanodes n).length * rounds), Nat.zero_add]
      have behind : (datanodes n).length * rounds ≤ j := by omega
      exact turn_congr (Nat.sub_mul_mod behind).symm

/-- A second push replaces the entry exactly when its size and its first blocks stay and the rest starts a new round. -/
theorem push_again_replaces_iff (table : TableOk n) (registered : datanodes n ≠ []) (there : ImageAt n name i image)
    (kind : r.reqType = 1) (string : cstr r.fileName = .ok name) (low : 0 ≤ r.fileSize) (high : r.fileSize ≤ 100 * 1024) :
    ReplacesEntry n r name i ↔ Replaceable n r name image := by
  have few := (blocksFor_range low high).2
  constructor
  · intro replaces
    exact replaces.replaceable table registered there kind string low few
  · intro replaceable
    exact replaceable.replaces table registered there string low few

theorem Handled.imageAt {n' : Namenode} (handled : Handled n r name (some (.file image)) n') : ∃ i, ImageAt n' name i image := by
  cases handled with
  | found i _ _ there => exact ⟨i, there⟩
  | stored i _ _ _ place extended _ => exact ⟨i, Function.update_self .., extended.filename⟩

theorem twoDatanodes_table : TableOk twoDatanodes := TableOk.initial.congr rfl

/-- A push of 3000 bytes, and the same once more. -/
theorem same_push_replaces : ∃ image n' i, getFileReceivers twoDatanodes ⟨letterName, 3000, 1⟩ (fun _ => .zero) =
    .ok (some (.file image), n') ∧ ImageAt n' [102] i image ∧ ReplacesEntry n' ⟨letterName, 3000, 1⟩ [102] i := by
  have registered : datanodes twoDatanodes ≠ [] := by decide
  obtain ⟨image, n', run, fileSize, blocknum, turns⟩ :=
    (twoDatanodes_first 3000).inTurn (n := twoDatanodes) rfl registered (by decide) (by decide) fun _ => .zero
  have fine : FineRequest twoDatanodes ⟨letterName, 3000, 1⟩ [102] :=
    ⟨by decide, cstr_letterName, fun i image there => (by cases there.entry), fun _ _ _ => by decide⟩
  obtain ⟨reply, n'', run', handled⟩ := @getFileReceivers_ok twoDatanodes _ _ (fun _ => .zero) twoDatanodes_table
    (registered_iff.mpr registered) fine rfl
  obtain ⟨rfl, rfl⟩ := Prod.mk.inj (Except.ok.inj (run.symm.trans run'))
  have frame := handled.frame.1
  have three : blocksFor 3000 = 3 := by decide
  obtain ⟨i, there⟩ := handled.imageAt
  have registered' : datanodes n' ≠ [] := by
    rw [datanodes, isRegistered_congr frame]
    exact registered
  have replaceable : Replaceable n' ⟨letterName, 3000, 1⟩ [102] image := by
    refine ⟨fileSize, ?_, fun j _ below => (turns j below).congr frame.symm, fun more => ?_⟩
    · rw [blocknum, three]
      decide
    · rw [blocknum] at more
      exact absurd more (Int.lt_irrefl _)
  exact ⟨image, n', i, run, there, (push_again_replaces_iff (r := ⟨letterName, 3000, 1⟩)
    (twoDatanodes_table.handled handled) registered' there rfl cstr_letterName (by decide) (by decide)).mpr replaceable⟩

/-- A push of 2048 bytes over a file of 1024 bytes. -/
theorem longer_push_not_replaced : ¬ ∀ (n : Namenode) (r : ClientReq) (name : List UInt8) (i : Fin MAX_FILE_COUNT)
    (image : FileDesc), TableOk n → datanodes n ≠ [] → ImageAt n name i image → r.reqType = 1 → cstr r.fileName = .ok name →
    0 ≤ r.fileSize → r.fileSize ≤ 100 * 1024 → ReplacesEntry n r name i := by
  intro claim
  have replaces := claim (twoDatanodes.withFile oneBlock) ⟨letterName, 2048, 1⟩ [102] 0 oneBlock oneBlock_table (by decide)
    (withFile_imageAt cstr_letterName) rfl cstr_letterName (by decide) (by decide)
  have sizes := (replaces.replaceable oneBlock_table (by decide) (withFile_imageAt cstr_letterName) rfl cstr_letterName
    (by decide) (by decide)).fileSize
  exact absurd sizes (by decide)

end StorageStack.Dfs
