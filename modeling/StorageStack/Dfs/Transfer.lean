import Mathlib.Data.Nat.Digits.Lemmas
import StorageStack.Dfs.Placement
import StorageStack.Lib.Buffer
import StorageStack.Lib.Runs

/-!
# Blocks on their way

A push sends one message for each block, and the datanodes handle them in any order. A pull gets every block
through two `strcpy`: it keeps a block up to its first zero and takes what is behind it from the reply of the
namenode, which nothing has stored to.
-/

namespace StorageStack.Dfs
open Lib CString

variable {n : Namenode} {name : List UInt8} {fileBlock : Int → BlockDesc} {image : FileDesc} {file : List UInt8} {hosts : Hosts}

theorem cstr_eq {k : Nat} {mem : Bytes k} {s : List UInt8} (h : cstr mem = .ok s) : scan mem.toList = s := by
  unfold cstr at h
  split at h
  · exact Except.ok.inj h
  · cases h

/-! ### Paths -/

theorem decimal_value (k : Nat) : Nat.ofDigits 10 ((decimal k).reverse.map fun c => c.toNat - 48) = k := by
  unfold decimal
  by_cases zero : k = 0
  · subst zero
    rfl
  · have some : (k : Int) ≠ 0 := by omega
    have nonneg : ¬ (k : Int) < 0 := by omega
    dsimp only
    rw [if_neg some, if_neg nonneg, Int.natAbs_natCast]
    simp only [List.map_reverse, List.reverse_reverse, List.map_map]
    have back : (Nat.digits 10 k).map ((fun c : UInt8 => c.toNat - 48) ∘ fun d => UInt8.ofNat (48 + d)) = Nat.digits 10 k := by
      conv_rhs => rw [← List.map_id (Nat.digits 10 k)]
      apply List.map_congr_left
      intro d m
      have small : d < 10 := Nat.digits_lt_base (by decide) m
      simp only [Function.comp_apply, UInt8.toNat_ofNat', id_eq]
      omega
    rw [back, Nat.ofDigits_digits]

theorem decimal_inj {j k : Nat} (same : decimal j = decimal k) : j = k := by
  rw [← decimal_value j, same, decimal_value k]

theorem length_decimal_le_iff {k n : Nat} (some : 1 ≤ n) : (decimal k).length ≤ n ↔ k < 10 ^ n := by
  unfold decimal
  by_cases zero : k = 0
  · subst zero
    exact iff_of_true some (Nat.pow_pos (by decide))
  · have nonzero : (k : Int) ≠ 0 := by omega
    have nonneg : ¬ (k : Int) < 0 := by omega
    dsimp only
    rw [if_neg nonzero, if_neg nonneg, List.length_map, List.length_reverse, Int.natAbs_natCast]
    exact Nat.digits_length_le_iff (by decide) k

/-- Where a datanode keeps block `k` of a file. -/
def blockPath (h : Host) (name : List UInt8) (k : Nat) : List UInt8 :=
  h.workingDirectory.bytes ++ name ++ blkInfix ++ decimal k

/-- The buffer has room for an id of three digits. -/
theorem getBlockFilePath_nat (h : Host) (name : List UInt8) (k : Nat) :
    getBlockFilePath h name k = if k < 1000 then .ok (blockPath h name k) else .error .undefined := by
  have two := @length_decimal_le_iff k 2 (by decide)
  have three := @length_decimal_le_iff k 3 (by decide)
  have quotient : (k : Int).tdiv 10 = (k / 10 : Nat) := rfl
  have fits : (h.workingDirectory.bytes ++ name ++ blkInfix ++ decimal k).length + 1 ≤
      h.workingDirectory.bytes.length + name.length + (if (k : Int).tdiv 10 = 0 then 1 else 2) + 7 ↔ k < 1000 := by
    rw [quotient]
    simp only [List.length_append]
    have separator : blkInfix.length = 5 := rfl
    split <;> omega
  exact if_congr fits rfl rfl

theorem getBlockFilePath_ok (h : Host) (name : List UInt8) {k : Nat} (small : k < 100) :
    getBlockFilePath h name k = .ok (blockPath h name k) := by
  rw [getBlockFilePath_nat, if_pos (by omega)]

theorem decimal_ne (k : Nat) : ∀ c ∈ decimal k, c ≠ 95 := by
  intro c member
  unfold decimal at member
  by_cases zero : k = 0
  · subst zero
    obtain rfl := List.mem_singleton.mp member
    decide
  · have some : (k : Int) ≠ 0 := by omega
    have nonneg : ¬ (k : Int) < 0 := by omega
    dsimp only at member
    rw [if_neg some, if_neg nonneg, Int.natAbs_natCast] at member
    obtain ⟨d, digit, rfl⟩ := List.mem_map.mp member
    have small : d < 10 := Nat.digits_lt_base (by decide) (List.mem_reverse.mp digit)
    intro underscore
    have value := congrArg UInt8.toNat underscore
    rw [UInt8.toNat_ofNat'] at value
    have ascii : (95 : UInt8).toNat = 95 := rfl
    omega

theorem split_first {a b s t : List UInt8} {x : UInt8} (left : ∀ c ∈ a, c ≠ x) (right : ∀ c ∈ b, c ≠ x)
    (same : a ++ x :: s = b ++ x :: t) : a = b ∧ s = t := by
  induction a generalizing b with
  | nil =>
    cases b with
    | nil => exact ⟨rfl, (List.cons.inj same).2⟩
    | cons d b => exact absurd (List.cons.inj same).1.symm (right d (List.mem_cons_self ..))
  | cons c a ih =>
    cases b with
    | nil => exact absurd (List.cons.inj same).1 (left c (List.mem_cons_self ..))
    | cons d b =>
      obtain ⟨first, rest⟩ := List.cons.inj same
      obtain ⟨rfl, tails⟩ := ih (fun c' m => left c' (List.mem_cons_of_mem _ m))
        (fun c' m => right c' (List.mem_cons_of_mem _ m)) rest
      exact ⟨by rw [first], tails⟩

/-- The last underscore separates the name from the id, whatever the name is. -/
theorem name_decimal_inj {name' : List UInt8} {j k : Nat}
    (same : name ++ blkInfix ++ decimal j = name' ++ blkInfix ++ decimal k) : name = name' ∧ j = k := by
  have reversed := congrArg List.reverse same
  simp only [List.reverse_append, blkInfix, List.reverse_cons, List.reverse_nil, List.nil_append, List.cons_append] at reversed
  obtain ⟨digits, names⟩ := split_first (fun c m => decimal_ne j c (List.mem_reverse.mp m))
    (fun c m => decimal_ne k c (List.mem_reverse.mp m)) reversed
  have fronts : [107, 108, 98, 95] ++ name.reverse = [107, 108, 98, 95] ++ name'.reverse := names
  exact ⟨List.reverse_inj.mp (List.append_cancel_left fronts), decimal_inj (List.reverse_inj.mp digits)⟩

theorem blockPath_inj {h : Host} {name' : List UInt8} {j k : Nat}
    (same : blockPath h name j = blockPath h name' k) : name = name' ∧ j = k := by
  unfold blockPath at same
  simp only [List.append_assoc] at same
  apply name_decimal_inj
  simpa only [List.append_assoc] using List.append_cancel_left same

/-! ### Pushing -/

def addressOf (block : BlockDesc) : Address := ⟨scan block.locIp.toList, block.locPort⟩

/-- Block `k` of the local file, on top of what the reply of the namenode had there. -/
def sentContent (image : FileDesc) (file : List UInt8) (k : Nat) : Bytes DFS_BLOCK_SIZE :=
  (image.entry k).content.patch 0 (piece file DFS_BLOCK_SIZE k)

def blockMessage (image : FileDesc) (file : List UInt8) (k : Nat) : Message :=
  ⟨addressOf (image.entry k), ⟨1, { image.entry k with content := sentContent image file k }⟩⟩

theorem Placed.connect {k : Nat} {block : BlockDesc} (placed : Placed n name fileBlock k block) (content : Bytes DFS_BLOCK_SIZE) :
    connect { block with content := content } = .ok (addressOf block) := by
  obtain ⟨_, datanode, _, _, ip, _⟩ := placed.node
  rw [Dfs.connect, ip, ok_bind, addressOf, cstr_eq ip]

theorem pushBlocks_ok {remaining count : Nat} (inside : count + remaining ≤ 100)
    (placed : ∀ k, count ≤ k → k < count + remaining → Placed n name fileBlock k (image.entry k)) :
    pushBlocks image remaining count (file.drop (1024 * count)) = .ok
      ((List.range' count remaining).map (blockMessage image file)) := by
  induction remaining generalizing count with
  | zero => rfl
  | succ remaining ih =>
    have rest := @ih (count + 1) (by omega) fun k low high => placed k (by omega) (by omega)
    have left : (file.drop (1024 * count)).drop DFS_BLOCK_SIZE = file.drop (1024 * (count + 1)) := by
      rw [List.drop_drop]
      rfl
    rw [pushBlocks, block_ok image (show count < 100 by omega), ok_bind]
    dsimp only
    rw [(placed count (Nat.le_refl _) (by omega)).connect, ok_bind, left, rest, ok_bind, List.range'_succ, List.map_cons]
    rfl

theorem freePlace {i : Fin MAX_FILE_COUNT} (free : n.fileImages i = none) :
    ∃ j, (List.finRange MAX_FILE_COUNT).find? (fun i => (n.fileImages i).isNone) = some j ∧ n.fileImages j = none := by
  have member : i ∈ List.finRange MAX_FILE_COUNT := List.mem_finRange i
  have found : ((List.finRange MAX_FILE_COUNT).find? fun i => (n.fileImages i).isNone).isSome := by
    rw [List.find?_isSome]
    refine ⟨i, member, ?_⟩
    rw [free]
    exact Option.isNone_none
  obtain ⟨j, result⟩ := Option.isSome_iff_exists.mp found
  have empty : (n.fileImages j).isNone = true := List.find?_some (p := fun i => (n.fileImages i).isNone) result
  exact ⟨j, result, Option.isNone_iff_eq_none.mp empty⟩

def blocksOf (file : List UInt8) : Nat := (file.length + 1023) / 1024

theorem blockCount_eq (small : file.length ≤ 102400) :
    blockCount (toInt32 file.length) = blocksOf file ∧ blocksOf file ≤ 100 := by
  have size : toInt32 (file.length : Int) = file.length := toInt32_of_range (by omega) (by omega)
  have sum : toInt32 ((file.length : Int) + (1024 - 1)) = file.length + 1023 := toInt32_of_range (by omega) (by omega)
  refine ⟨?_, by unfold blocksOf; omega⟩
  show (toInt32 (toInt32 (file.length : Int) + (1024 - 1))).tdiv 1024 = _
  rw [size, sum, Int.tdiv_eq_ediv_of_nonneg (by omega)]
  unfold blocksOf
  omega

/-- What the namenode knows of a file after it was pushed. -/
structure Stored (n n' : Namenode) (name : List UInt8) (fileBlock : Int → BlockDesc) (blocks : Nat)
    (image : FileDesc) : Prop where
  found : ∃ i, findImage n' name (List.finRange MAX_FILE_COUNT) = .ok (some (i, image))
  blocknum : image.blocknum = blocks
  placed : ∀ k < blocks, Placed n name fileBlock k (image.entry k)

/-- The first write request for a name, for which a place is free. -/
structure FirstWrite (n : Namenode) (r : ClientReq) (name : List UInt8) : Prop where
  named : Named n
  absent : ∀ i image, n.fileImages i = some image → scan image.filename.toList ≠ name
  free : ∃ i, n.fileImages i = none
  kind : r.reqType = 1
  string : cstr r.fileName = .ok name

theorem cstr_length {k : Nat} {mem : Bytes k} (string : cstr mem = .ok name) : name.length < k := by
  unfold cstr at string
  split at string
  case isTrue ends =>
    have short := length_scan_lt ends
    rw [Bytes.length_toList, Except.ok.inj string] at short
    exact short
  case isFalse => cases string

theorem cstr_nonzero {k : Nat} {mem : Bytes k} (string : cstr mem = .ok name) : ∀ c ∈ name, c ≠ 0 :=
  cstr_eq string ▸ fun _ => scan_nonzero

/-- A first write takes a free place and puts the blocks on the datanodes that the loop visits. -/
theorem FirstWrite.run {r : ClientReq} {blocks : Nat} {node : Nat → Fin MAX_DATANODE_NUM} (first : FirstWrite n r name)
    (count : blockCount r.fileSize = blocks) (few : blocks ≤ MAX_FILE_BLK_COUNT) (visits : Visits n 1 0 node)
    (fileBlock : Int → BlockDesc) :
    ∃ place image, n.fileImages place = none ∧ getFileReceivers n r fileBlock =
        .ok (some (.file image), { n with fileImages := Function.update n.fileImages place (some image) }) ∧
      image.filename = FileDesc.zero.filename.patch 0 (name ++ [0]) ∧ image.fileSize = r.fileSize ∧ image.blocknum = blocks ∧
      ∀ k < blocks, PlacedOn n name fileBlock k (node k) (image.entry k) := by
  obtain ⟨i, free⟩ := first.free
  obtain ⟨place, found, empty⟩ := freePlace free
  have nonzero := cstr_nonzero first.string
  have short := cstr_length first.string
  have filename := strcpy_ok FileDesc.zero.filename (s := name) (by omega)
  obtain ⟨image, run, assigned, placed⟩ := @assignBlocks_visits n name fileBlock
    { FileDesc.zero with
      filename := FileDesc.zero.filename.patch 0 (name ++ [0]), fileSize := r.fileSize, blocknum := blocks }
    1 node nonzero (by omega) blocks 0 (by omega) 0 visits
  refine ⟨place, image, empty, ?_, assigned.filename, assigned.fileSize, assigned.blocknum, fun k h => ?_⟩
  · rw [getFileReceivers, first.string, ok_bind, imageFor, findImage_absent first.named nonzero first.absent, ok_bind]
    dsimp only
    rw [found]
    dsimp only
    rw [filename, ok_bind, ok_bind]
    dsimp only
    rw [count, Int.toNat_natCast]
    show (assignBlocks n name fileBlock 1 blocks ((0 : Nat) : Int) 0 _ >>= _) = _
    rw [run, ok_bind]
  · have here := placed k h
    rwa [Nat.zero_add] at here

theorem answer_write (n : Namenode) {r : ClientReq} (kind : r.reqType = 1) (fileBlock : Int → BlockDesc) :
    answer n r fileBlock = getFileReceivers n r fileBlock := by
  rw [answer, kind, if_neg (by decide), if_pos rfl]

theorem answer_write_first {fileName : Bytes 256} {i : Fin MAX_FILE_COUNT} (named : Named n) (registered : Registered n)
    (absent : ∀ i image, n.fileImages i = some image → scan image.filename.toList ≠ name) (free : n.fileImages i = none)
    (request : cstr fileName = .ok name) (small : file.length ≤ 102400) :
    ∃ image n', answer n ⟨fileName, toInt32 file.length, 1⟩ fileBlock = .ok (some (.file image), n') ∧
      Stored n n' name fileBlock (blocksOf file) image := by
  obtain ⟨count, few⟩ := blockCount_eq small
  obtain ⟨node, visits⟩ := exists_visits registered 1 0
  have first : FirstWrite n ⟨fileName, toInt32 file.length, 1⟩ name := ⟨named, absent, ⟨i, free⟩, rfl, request⟩
  obtain ⟨j, image, empty, run, filename, -, blocknum, placed⟩ := first.run count few visits fileBlock
  refine ⟨image, { n with fileImages := Function.update n.fileImages j (some image) }, ?_, ⟨j, ?_⟩, blocknum, fun k h =>
    (placed k h).placed⟩
  · rw [answer_write n rfl, run]
  · have nonzero := cstr_nonzero request
    have short := cstr_length request
    have whole := toList_strcpy FileDesc.zero.filename (s := name) (by omega)
    rw [← filename] at whole
    refine findImage_present (fun i' image' entry => ?_) nonzero (Function.update_self ..) ?_ fun i' image' other entry => ?_
    · by_cases same : i' = j
      · subst same
        dsimp only at entry
        rw [Function.update_self] at entry
        obtain rfl := Option.some.inj entry
        rw [whole]
        exact List.mem_append_right _ (List.mem_cons_self ..)
      · dsimp only at entry
        rw [Function.update_of_ne same] at entry
        exact named i' image' entry
    · rw [whole, scan_append_zero nonzero]
    · dsimp only at entry
      rw [Function.update_of_ne other] at entry
      exact absent i' image' entry

/-! ### Delivery in any order -/

theorem nil_nonzero : ∀ c ∈ ([] : List UInt8), c ≠ 0 := by simp

theorem letter_nonzero : ∀ c ∈ ([102] : List UInt8), c ≠ 0 := by simp

def letterName : Bytes 256 := Bytes.zero.patch 0 [102]

theorem cstr_letterName : cstr letterName = .ok [102] := by decide +kernel

def emptyHosts : Hosts := fun _ => ⟨1, ⟨[], nil_nonzero⟩, fun _ => none⟩

theorem deliver_write {k : Nat} {block : BlockDesc} (small : k < 100) (owner : cstr block.ownerName = .ok name)
    (id : block.blockId = k) (address : Address) (buffer : Bytes DFS_BLOCK_SIZE) (hosts : Hosts) :
    ∃ hosts', deliver buffer ⟨address, ⟨1, block⟩⟩ hosts = .ok hosts' ∧
      (∀ a, (hosts' a).workingDirectory = (hosts a).workingDirectory) ∧
      ∀ a path, (hosts' a).files path = if a = address ∧ path = blockPath (hosts a) name k then
        some block.content.toList else (hosts a).files path := by
  have located := getBlockFilePath_ok (hosts address) name small
  let host := hosts address
  let files := Function.update host.files (blockPath host name k) (some block.content.toList)
  refine ⟨Function.update hosts address { host with files }, ?_, fun a => ?_, fun a path => ?_⟩
  · rw [deliver, serve, if_neg (show ¬ (1 : Int) = 0 by decide), if_pos rfl, createBlock]
    dsimp only
    rw [owner, ok_bind, id, extWriteBlock, located, ok_bind, ok_bind, ok_bind]
  · by_cases here : a = address
    · subst here
      rw [Function.update_self]
    · rw [Function.update_of_ne here]
  · by_cases here : a = address
    · subst here
      rw [Function.update_self]
      show Function.update host.files (blockPath host name k) _ path = _
      rw [Function.update_apply]
      by_cases same : path = blockPath (hosts a) name k
      · rw [if_pos same, if_pos ⟨rfl, same⟩]
      · rw [if_neg same, if_neg fun both => same both.2]
    · rw [Function.update_of_ne here, if_neg fun both => here both.1]

theorem deliver_ok {k : Nat} (small : k < 100) (placed : Placed n name fileBlock k (image.entry k))
    (buffer : Bytes DFS_BLOCK_SIZE)
    (hosts : Hosts) :
    ∃ hosts', deliver buffer (blockMessage image file k) hosts = .ok hosts' ∧
      (∀ a, (hosts' a).workingDirectory = (hosts a).workingDirectory) ∧
      ∀ a path, (hosts' a).files path = if a = addressOf (image.entry k) ∧ path = blockPath (hosts a) name k then
        some (sentContent image file k).toList else (hosts a).files path :=
  @deliver_write name k { image.entry k with content := sentContent image file k } small placed.owner placed.id _ buffer hosts

/-- The datanode of block `k` has the block. -/
def HasBlock (hosts : Hosts) (image : FileDesc) (file name : List UInt8) (k : Nat) : Prop :=
  (hosts (addressOf (image.entry k))).files (blockPath (hosts (addressOf (image.entry k))) name k) =
    some (sentContent image file k).toList

theorem deliverAll_ok {blocks : Nat} (few : blocks ≤ 100) (placed : ∀ k < blocks, Placed n name fileBlock k (image.entry k))
    (buffer : Bytes DFS_BLOCK_SIZE) (hosts : Hosts) {order : List Message}
    (perm : order.Perm ((List.range blocks).map (blockMessage image file))) :
    ∃ hosts', runAll (deliver buffer) order hosts = .ok hosts' ∧ ∀ k < blocks, HasBlock hosts' image file name k := by
  have apart : ∀ j < blocks, ∀ k < blocks,
    blockMessage image file j = blockMessage image file k → j = k := fun j hj k hk same => by
    have id : (image.entry j).blockId = (image.entry k).blockId := congrArg (fun m => m.request.block.blockId) same
    rw [(placed j hj).id, (placed k hk).id] at id
    omega
  have nodup : order.Nodup := perm.nodup_iff.mpr <| List.Nodup.map_on (fun j hj k hk same =>
    apart j (List.mem_range.mp hj) k (List.mem_range.mp hk) same) List.nodup_range
  obtain ⟨hosts', run, -, effects, -⟩ := runAll_each (fun _ => True)
    (fun m w => ∀ k < blocks, m = blockMessage image file k → HasBlock w image file name k) nodup trivial
    fun m member w _ => by
      obtain ⟨k, range, rfl⟩ := List.mem_map.mp (perm.mem_iff.mp member)
      have hk := List.mem_range.mp range
      obtain ⟨w', here, directories, files⟩ := @deliver_ok n name fileBlock image file k (by omega) (placed k hk) buffer w
      have paths : ∀ a j, blockPath (w' a) name j = blockPath (w a) name j := fun a j => by rw [blockPath, directories, blockPath]
      refine ⟨w', here, trivial, fun j hj same => ?_, fun m' other held j hj same => ?_⟩
      · obtain rfl := apart k hk j hj same
        rw [HasBlock, files, paths, if_pos ⟨rfl, rfl⟩]
      · subst same
        rw [HasBlock, files, paths, if_neg fun both => other ?_]
        · exact held j hj rfl
        · rw [(blockPath_inj both.2).2]
  refine ⟨hosts', run, fun k hk => ?_⟩
  exact effects _ (perm.mem_iff.mpr (List.mem_map_of_mem (List.mem_range.mpr hk))) k hk rfl

/-! ### Pulling -/

/-- What becomes of block `k`: the string at its front, on top of what the reply of the namenode has. -/
def pulled (image : FileDesc) (file : List UInt8) (k : Nat) : Bytes DFS_BLOCK_SIZE :=
  (image.entry k).content.patch 0 (scan (sentContent image file k).toList ++ [0])

/-- A datanode answers with the string at the front of a block, if there is one. -/
theorem serve_read {k : Nat} (small : k < 100) (fits : name.length ≤ 255) (placed : Placed n name fileBlock k (image.entry k))
    (has : HasBlock hosts image file name k) (buffer : Bytes DFS_BLOCK_SIZE) :
    serve (hosts (addressOf (image.entry k))) ⟨0, image.entry k⟩ buffer = cstr (sentContent image file k) >>= fun s =>
      .ok (some ⟨BlockDesc.zero.ownerName.patch 0 (name ++ [0]), (hosts (addressOf (image.entry k))).datanodeId, k, .zero, 0,
        BlockDesc.zero.content.patch 0 (s ++ [0])⟩, hosts (addressOf (image.entry k))) := by
  have path := getBlockFilePath_ok (hosts (addressOf (image.entry k))) name small
  have owner := strcpy_ok BlockDesc.zero.ownerName (s := name) (by omega)
  have whole : (sentContent image file k).toList.take DFS_BLOCK_SIZE = (sentContent image file k).toList :=
    List.take_of_length_le (by rw [Bytes.length_toList])
  rw [serve, if_pos rfl, readBlock]
  dsimp only
  rw [placed.owner, ok_bind, placed.id, extReadBlock, path, ok_bind, has]
  dsimp only
  rw [ok_bind, owner, ok_bind, whole, Bytes.patch_toList, cstr]
  by_cases ends : 0 ∈ (sentContent image file k).toList
  · have short := length_scan_lt ends
    rw [Bytes.length_toList] at short
    rw [if_pos ends, ok_bind, strcpy_ok _ short, ok_bind, ok_bind]
    rfl
  · rw [if_neg ends]
    rfl

theorem pullBlocks_ok {remaining count : Nat} {buffers : Nat → Bytes DFS_BLOCK_SIZE} (inside : count + remaining ≤ 100)
    (fits : name.length ≤ 255) (placed : ∀ k, count ≤ k → k < count + remaining → Placed n name fileBlock k (image.entry k))
    (has : ∀ k, count ≤ k → k < count + remaining → HasBlock hosts image file name k)
    (ends : ∀ k, count ≤ k → k < count + remaining → 0 ∈ (sentContent image file k).toList) :
    pullBlocks hosts buffers image remaining count = .ok ((List.range' count remaining).map (pulled image file)) := by
  induction remaining generalizing count with
  | zero => rfl
  | succ remaining ih =>
    have rest := @ih (count + 1) (by omega) (fun k low high => placed k (by omega) (by omega))
      (fun k low high => has k (by omega) (by omega)) fun k low high => ends k (by omega) (by omega)
    have here := placed count (Nat.le_refl _) (by omega)
    have zero := ends count (Nat.le_refl _) (by omega)
    have short := length_scan_lt zero
    rw [Bytes.length_toList] at short
    have string : cstr (sentContent image file count) = .ok (scan (sentContent image file count).toList) := if_pos zero
    have copied := cstr_strcpy BlockDesc.zero.content
      (s := scan (sentContent image file count).toList) (fun c m => scan_nonzero m) short
    rw [pullBlocks, block_ok image (show count < 100 by omega), ok_bind, here.connect (image.entry count).content, ok_bind,
      serve_read (by omega) fits here (has count (Nat.le_refl _) (by omega)), string, ok_bind]
    dsimp only [receive]
    rw [ok_bind, ok_bind, copied, ok_bind, strcpy_ok _ short, ok_bind, rest, ok_bind, List.range'_succ, List.map_cons]
    rfl

/-- A pull that returns found a zero in every block. -/
theorem pullBlocks_ends {remaining count : Nat} {buffers : Nat → Bytes DFS_BLOCK_SIZE} {r : List (Bytes DFS_BLOCK_SIZE)}
    (inside : count + remaining ≤ 100) (fits : name.length ≤ 255)
    (placed : ∀ k, count ≤ k → k < count + remaining → Placed n name fileBlock k (image.entry k))
    (has : ∀ k, count ≤ k → k < count + remaining → HasBlock hosts image file name k)
    (run : pullBlocks hosts buffers image remaining count = .ok r) :
    ∀ k, count ≤ k → k < count + remaining → 0 ∈ (sentContent image file k).toList := by
  induction remaining generalizing count r with
  | zero => intro k low high
            omega
  | succ remaining ih =>
    have here := placed count (Nat.le_refl _) (by omega)
    rw [pullBlocks, block_ok image (show count < 100 by omega), ok_bind, here.connect (image.entry count).content, ok_bind,
      serve_read (by omega) fits here (has count (Nat.le_refl _) (by omega))] at run
    obtain ⟨reply, served, run⟩ := bind_ok run
    obtain ⟨s, string, -⟩ := bind_ok served
    obtain ⟨block, -, run⟩ := bind_ok run
    obtain ⟨s', -, run⟩ := bind_ok run
    obtain ⟨content, -, run⟩ := bind_ok run
    obtain ⟨others, rest, -⟩ := bind_ok run
    intro k low high
    by_cases first : k = count
    · subst first
      by_contra none
      rw [cstr, if_neg none] at string
      cases string
    · exact @ih (count + 1) _ (by omega) (fun k low high => placed k (by omega) (by omega))
        (fun k low high => has k (by omega) (by omega)) rest k (by omega) (by omega)

end StorageStack.Dfs
