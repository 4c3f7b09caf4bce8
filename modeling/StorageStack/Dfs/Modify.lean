import StorageStack.Dfs.Locations
import StorageStack.Dfs.RoundTrip
import StorageStack.Dfs.UpdatePoint

/-!
# Modifying a file

`modify_file` reads from `start_addr` on, not from the start of its block, and `block_index` stays at the first
block: every message replaces that block, and the last one that is handled stays.
-/

namespace StorageStack.Dfs
open Lib CString

variable {h : History} {n n' : Namenode} {name file : List UInt8} {filename : CString} {image reply : FileDesc}
  {i : Fin MAX_FILE_COUNT} {hosts hosts' : Hosts} {start stop size k : Nat}

/-- The datanodes have the blocks of the file, whatever is in them. -/
def HoldsBlocks (hosts : Hosts) (image : FileDesc) (name : List UInt8) : Prop :=
  ∀ j : Nat, (j : Int) < image.blocknum → ∃ bytes, (hosts (addressOf (image.entry j))).files
    (blockPath (hosts (addressOf (image.entry j))) name j) = some bytes

/-- Block `k` of the local file is where the reply lists it. -/
structure Updated (reply : FileDesc) (name file : List UInt8) (hosts : Hosts) (k : Nat) : Prop where
  blockId : (reply.entry k).blockId = k
  content : ∃ bytes, (hosts (addressOf (reply.entry k))).files (blockPath (hosts (addressOf (reply.entry k))) name k) =
    some bytes ∧ piece file DFS_BLOCK_SIZE k <+: bytes

def modifyRequest (filename : CString) (size : Nat) : ClientReq := ⟨Bytes.zero.patch 0 (filename.bytes ++ [0]), size, 3⟩

/-- For every local file of that size: when all messages have been handled, in any order, the blocks of the range are
those of the local file, and nothing else has changed on any datanode. -/
def UpdatesRange (n : Namenode) (filename : CString) (image : FileDesc) (size start stop : Nat) : Prop :=
  ∀ (file : List UInt8) (fileBlock : Int → BlockDesc) (buffer : Bytes DFS_BLOCK_SIZE) (hosts : Hosts), file.length = size →
    HoldsBlocks hosts image filename.bytes → ∃ messages n' reply,
      modifyFile n fileBlock filename file size start stop = .ok (messages, n') ∧
      answer n (modifyRequest filename size) fileBlock = .ok (some (.file reply), n') ∧
      ∀ order, order.Perm messages → ∃ hosts', runAll (deliver buffer) order hosts = .ok hosts' ∧
        (∀ k, start / 1024 ≤ k → k ≤ stop / 1024 → Updated reply filename.bytes file hosts' k) ∧
        ∀ a path, (∀ k, start / 1024 ≤ k → k ≤ stop / 1024 →
          ¬ (a = addressOf (reply.entry k) ∧ path = blockPath (hosts a) filename.bytes k)) →
          (hosts' a).files path = (hosts a).files path

/-- The entry of block `k` of a file, with an address that ends. -/
structure Listed (name : List UInt8) (k : Nat) (block : BlockDesc) : Prop where
  inside : k < MAX_FILE_BLK_COUNT
  owner : cstr block.ownerName = .ok name
  blockId : block.blockId = k
  ip : ∃ ip, cstr block.locIp = .ok ip

/-- The range begins with a block and ends in it, the blocks of the local file fit in the list, and this one is
among them or listed already. -/
structure OneWholeBlock (name : List UInt8) (image : FileDesc) (size start stop : Nat) : Prop where
  aligned : start % 1024 = 0
  one : start / 1024 = stop / 1024
  room : blockCount size ≤ MAX_FILE_BLK_COUNT
  listed : (start / 1024 : Nat) < blockCount size ∨ Listed name (start / 1024) (image.entry (start / 1024))

/-! ### The messages -/

/-- The message that replaces block `k` with the front of `src`. -/
def replaceBlock (fileInfo : FileDesc) (k : Nat) (src : List UInt8) : Message :=
  ⟨addressOf (fileInfo.entry k),
    ⟨1, { fileInfo.entry k with content := (fileInfo.entry k).content.patch 0 (src.take DFS_BLOCK_SIZE) }⟩⟩

theorem modifyBlocks_ok {remaining : Nat} {ip : List UInt8} (inside : k < MAX_FILE_BLK_COUNT)
    (address : cstr (reply.entry k).locIp = .ok ip) : modifyBlocks reply k remaining file =
      .ok (((List.range remaining).map fun j => file.drop (DFS_BLOCK_SIZE * j)).map (replaceBlock reply k)) := by
  induction remaining generalizing file with
  | zero => rfl
  | succ remaining ih =>
    have connected : connect { reply.entry k with content := (reply.entry k).content.patch 0 (file.take DFS_BLOCK_SIZE) } =
        .ok (addressOf (reply.entry k)) := by
      rw [connect, address, ok_bind, addressOf, cstr_eq address]
    rw [modifyBlocks, block_ok reply inside, ok_bind]
    dsimp only
    have later : (List.range remaining).map (fun j => (file.drop DFS_BLOCK_SIZE).drop (DFS_BLOCK_SIZE * j)) =
        ((List.range remaining).map Nat.succ).map fun j => file.drop (DFS_BLOCK_SIZE * j) := by
      rw [List.map_map]
      apply List.map_congr_left
      intro j _
      rw [List.drop_drop, Function.comp_apply, Nat.mul_succ, Nat.add_comm]
    rw [connected, ok_bind, ih, ok_bind, later, List.range_succ_eq_map, List.map_cons, List.map_cons]
    rfl

/-- A loop that sends something found the entry and its address. -/
theorem modifyBlocks_inv {remaining : Nat} {messages : List Message}
    (run : modifyBlocks reply k (remaining + 1) file = .ok messages) :
    k < MAX_FILE_BLK_COUNT ∧ ∃ ip, cstr (reply.entry k).locIp = .ok ip := by
  rw [modifyBlocks] at run
  obtain ⟨block, entry, run⟩ := bind_ok run
  obtain ⟨address, connected, -⟩ := bind_ok run
  have inside : k < MAX_FILE_BLK_COUNT := by
    unfold FileDesc.block at entry
    split at entry
    · omega
    · cases entry
  obtain rfl := Except.ok.inj (entry.symm.trans (block_ok reply inside))
  obtain ⟨ip, ends, -⟩ := bind_ok connected
  exact ⟨inside, ip, ends⟩

theorem deliver_owner {src : List UInt8} {buffer : Bytes DFS_BLOCK_SIZE}
    (run : deliver buffer (replaceBlock reply k src) hosts = .ok hosts') :
    ∃ owner, cstr (reply.entry k).ownerName = .ok owner := by
  have write : (replaceBlock reply k src).request.opType = 1 := rfl
  obtain ⟨served, serving, -⟩ := bind_ok run
  rw [serve, write, if_neg (by decide), if_pos rfl] at serving
  obtain ⟨host, created, -⟩ := bind_ok serving
  obtain ⟨owner, string, -⟩ := bind_ok created
  exact ⟨owner, string⟩

/-- Whatever the messages hold, they only touch the file of their block. -/
theorem replaceAll_ok (small : k < 100) (owner : cstr (reply.entry k).ownerName = .ok name) (id : (reply.entry k).blockId = k)
    (buffer : Bytes DFS_BLOCK_SIZE) (hosts : Hosts) (sources : List (List UInt8)) :
    ∃ hosts', runAll (deliver buffer) (sources.map (replaceBlock reply k)) hosts = .ok hosts' ∧
      (∀ a, (hosts' a).workingDirectory = (hosts a).workingDirectory) ∧
      ∀ a path, ¬ (a = addressOf (reply.entry k) ∧ path = blockPath (hosts a) name k) →
        (hosts' a).files path = (hosts a).files path := by
  induction sources generalizing hosts with
  | nil => exact ⟨hosts, rfl, fun _ => rfl, fun _ _ _ => rfl⟩
  | cons src sources ih =>
    obtain ⟨hosts₁, here, directories, files⟩ := @deliver_write name k { reply.entry k with
      content := (reply.entry k).content.patch 0 (src.take DFS_BLOCK_SIZE) } small owner id
      (addressOf (reply.entry k)) buffer hosts
    obtain ⟨hosts', rest, directories', files'⟩ := ih hosts₁
    refine ⟨hosts', ?_, fun a => (directories' a).trans (directories a), fun a path other => ?_⟩
    · rw [List.map_cons, runAll, replaceBlock, here, ok_bind, rest]
    · rw [files' a path (by rwa [blockPath, directories, ← blockPath]), files, if_neg other]

/-! ### The reply of the namenode -/

/-- A file is in the table only after a request, and requests wait for a datanode. -/
theorem Reaches.registered (reached : Reaches h n) (entry : n.fileImages i = some image) : Registered n := by
  induction reached generalizing image with
  | initial => cases entry
  | @step h n n' e reply before fine run ih =>
    cases before.happened fine run with
    | heartbeat same kept =>
      rw [same] at entry
      obtain ⟨index, there⟩ := ih entry
      exact ⟨index, kept index there⟩
    | request name string handled =>
      obtain ⟨index, there⟩ := before.holds.2.safeMode.mp fine.1
      exact ⟨index, by rw [handled.frame.1]; exact there⟩

/-- The blocks are counted right as long as the sum is an `int`, and otherwise none are needed. -/
theorem blockCount_cases (int : size < 2147483648) : blockCount size = blocksFor size ∨ blockCount size ≤ 0 := by
  have count : blockCount size = (toInt32 (size + 1023)).tdiv 1024 := rfl
  by_cases fits : (size : Int) + 1023 < 2147483648
  · left
    rw [count, toInt32_of_range (by omega) fits, Int.tdiv_eq_ediv_of_nonneg (by omega)]
    rfl
  · right
    have wrapped : toInt32 (size + 1023) = size + 1023 - 4294967296 := by
      unfold toInt32
      omega
    have opposite : 0 ≤ (-(toInt32 (size + 1023))).tdiv 1024 := Int.tdiv_nonneg (by omega) (by decide)
    rw [Int.neg_tdiv] at opposite
    omega

theorem Located.listed {block : BlockDesc} (located : Located h n name k block) (inside : k < MAX_FILE_BLK_COUNT) :
    Listed name k block := by
  obtain ⟨status, ip, reply, -, -, -, address, -⟩ := located.address
  exact ⟨inside, located.owner, located.blockId, _, address⟩

theorem PlacedOn.listed {fileBlock : Int → BlockDesc} {index : Fin MAX_DATANODE_NUM} {block : BlockDesc}
    (placed : PlacedOn n name fileBlock k index block) (inside : k < MAX_FILE_BLK_COUNT) : Listed name k block := by
  obtain ⟨datanode, -, ip, -⟩ := placed.node
  exact ⟨inside, placed.owner, placed.id, _, ip⟩

theorem answer_modify (n : Namenode) (size : Nat) (fileBlock : Int → BlockDesc) :
    answer n (modifyRequest filename size) fileBlock = getFileUpdatePoint n (modifyRequest filename size) := by
  have kind : (modifyRequest filename size).reqType = 3 := rfl
  rw [answer, kind, if_neg (by decide), if_neg (by decide), if_neg (by decide), if_pos rfl]

theorem cstr_modifyRequest (there : ImageAt n filename.bytes i image) (size : Nat) :
    cstr (modifyRequest filename size).fileName = .ok filename.bytes :=
  cstr_strcpy _ filename.nonzero (cstr_length there.name)

theorem modifyRequest_ok (reached : Reaches h n) (there : ImageAt n filename.bytes i image) (int : size < 2147483648)
    (room : blockCount size ≤ MAX_FILE_BLK_COUNT) : ∃ reply n',
      getFileUpdatePoint n (modifyRequest filename size) = .ok (some (.file reply), n') ∧
      ∀ k : Nat, (k : Int) < blocksFor size → k < blockCount size ∨ Listed filename.bytes k (image.entry k) →
        Listed filename.bytes k (reply.entry k) := by
  have table := reached.holds.1
  have string := cstr_modifyRequest there size
  have blocknum := table.blocknum i image there.entry
  have old : ∀ k : Nat, (k : Int) < image.blocknum → Listed filename.bytes k (image.entry k) := fun k below =>
    (reached.locates.1 i image there.entry filename.bytes there.name k below).listed (by omega)
  by_cases enough : blockCount size ≤ image.blocknum
  · refine ⟨image, n, getFileUpdatePoint_enough table there string enough, fun k _ listed => ?_⟩
    rcases listed with counted | listed
    · exact old k (by omega)
    · exact listed
  · have count := (blockCount_cases int).resolve_right (by omega)
    obtain ⟨reply, -, run, kept, index, placed⟩ := getFileUpdatePoint_more table (reached.registered there.entry) there string
      (show 0 ≤ (size : Int) by omega) (show blocksFor size ≤ 100 from count ▸ room)
      (show image.blocknum < blocksFor size by omega)
    refine ⟨reply, _, run, fun k inside _ => ?_⟩
    by_cases before : (k : Int) < image.blocknum
    · rw [kept k before]
      exact old k before
    · exact (placed k (by omega) inside).listed (by omega)

theorem modifyRequest_room {r : Option Reply × Namenode} (table : TableOk n) (there : ImageAt n filename.bytes i image)
    (run : getFileUpdatePoint n (modifyRequest filename size) = .ok r) : blockCount size ≤ MAX_FILE_BLK_COUNT := by
  have blocknum := table.blocknum i image there.entry
  by_contra many
  have size' : (modifyRequest filename size).fileSize = size := rfl
  rw [getFileUpdatePoint, cstr_modifyRequest there size, ok_bind, findImage_at table there, ok_bind] at run
  dsimp only at run
  rw [size', if_pos (by omega)] at run
  obtain ⟨last, -, run⟩ := bind_ok run
  obtain ⟨index, -, run⟩ := bind_ok run
  obtain ⟨image', assigned, -⟩ := bind_ok run
  have range := assignBlocks_range (show 0 < (blockCount size - image.blocknum).toNat by omega) assigned
  omega

theorem modifyFile_eq {fileBlock : Int → BlockDesc} (there : ImageAt n filename.bytes i image)
    (answered : answer n (modifyRequest filename size) fileBlock = .ok (some (.file reply), n')) (ordered : start ≤ stop) :
    modifyFile n fileBlock filename file size start stop =
      modifyBlocks reply (start / 1024 : Nat) (stop / 1024 - start / 1024 + 1) (file.drop start) >>= fun messages =>
        .ok (messages, n') := by
  have first : (start : Int).tdiv DFS_BLOCK_SIZE = (start / 1024 : Nat) := rfl
  have last : (stop : Int).tdiv DFS_BLOCK_SIZE = (stop / 1024 : Nat) := rfl
  have blocks : (((stop / 1024 : Nat) : Int) - (start / 1024 : Nat) + 1).toNat = stop / 1024 - start / 1024 + 1 := by omega
  rw [modifyFile, strcpy_ok _ (cstr_length there.name), ok_bind]
  unfold modifyRequest at answered
  rw [answered, ok_bind]
  dsimp only [queryResult, Option.bind_some, receive]
  rw [ok_bind, first, last, blocks, Int.toNat_natCast]

/-! ### What the datanodes have afterwards -/

theorem front_patch {src : List UInt8} (b : Bytes DFS_BLOCK_SIZE) (short : src.length ≤ 1024) :
    src <+: (b.patch 0 src).toList := by
  have whole := @Bytes.toList_drop_patch _ b 0 src (show 0 + src.length ≤ 1024 by omega)
  rw [List.drop_zero] at whole
  exact ⟨_, whole.symm⟩

theorem first_of_front {a b : List UInt8} {c : UInt8} (before : a <+: b) (first : a[0]? = some c) : b[0]? = some c := by
  obtain ⟨rest, rfl⟩ := before
  obtain ⟨some, -⟩ := List.getElem?_eq_some_iff.mp first
  rw [List.getElem?_append_left some, first]

theorem updatesRange_of (reached : Reaches h n) (there : ImageAt n filename.bytes i image)
    (range : start ≤ stop ∧ stop < size) (int : size < 2147483648)
    (whole : OneWholeBlock filename.bytes image size start stop) : UpdatesRange n filename image size start stop := by
  obtain ⟨aligned, one, room, listed⟩ := whole
  intro file fileBlock buffer hosts length _
  obtain ⟨reply, n', run, lists⟩ := modifyRequest_ok reached there int room
  have count : blocksFor size = (size + 1023) / 1024 := rfl
  obtain ⟨inside, owner, id, ip, address⟩ := lists (start / 1024) (by omega) listed
  have answered : answer n (modifyRequest filename size) fileBlock = .ok (some (.file reply), n') :=
    (answer_modify n size fileBlock).trans run
  refine ⟨[replaceBlock reply (start / 1024) (file.drop start)], n', reply, ?_, answered, fun order perm => ?_⟩
  · rw [modifyFile_eq there answered range.1, one, Nat.sub_self, ← one, modifyBlocks_ok inside address, ok_bind]
    rfl
  · obtain rfl := List.perm_singleton.mp perm
    obtain ⟨hosts', delivered, directories, files⟩ := @deliver_write filename.bytes (start / 1024)
      { reply.entry (start / 1024) with
        content := (reply.entry (start / 1024)).content.patch 0 ((file.drop start).take DFS_BLOCK_SIZE) }
      inside owner id (addressOf (reply.entry (start / 1024))) buffer hosts
    refine ⟨hosts', by rw [runAll, replaceBlock, delivered, ok_bind, runAll], fun k low high => ?_, fun a path other => ?_⟩
    · obtain rfl : k = start / 1024 := by omega
      have front : (file.drop start).take DFS_BLOCK_SIZE = piece file DFS_BLOCK_SIZE (start / 1024) := by
        rw [piece, show DFS_BLOCK_SIZE * (start / 1024) = start from Nat.mul_div_cancel' (Nat.dvd_of_mod_eq_zero aligned)]
      refine ⟨id, _, ?_, front_patch (reply.entry (start / 1024)).content (List.length_take_le ..)⟩
      rw [files, blockPath, directories, if_pos ⟨rfl, rfl⟩, ← front]
    · rw [files, if_neg (other (start / 1024) (Nat.le_refl _) (by omega))]

/-! ### When a modification goes wrong -/

/-- Every file is there, and holds a block of zeros. -/
def zeroHosts : Hosts := fun _ => ⟨1, ⟨[], nil_nonzero⟩, fun _ => some (List.replicate 1024 0)⟩

/-- A local file without a zero that changes at `start`. -/
def twoParts (start size : Nat) : List UInt8 := List.replicate start 1 ++ List.replicate (size - start) 2

theorem length_twoParts (inside : start < size) : (twoParts start size).length = size := by
  rw [twoParts, List.length_append, List.length_replicate, List.length_replicate]
  omega

theorem getElem?_twoParts {j : Nat} (inside : j < size) : (twoParts start size)[j]? = some (if j < start then 1 else 2) := by
  rw [twoParts, List.getElem?_append, List.length_replicate, List.getElem?_replicate, List.getElem?_replicate]
  split
  · rfl
  · rw [if_pos (by omega)]

theorem Updated.touched (updated : Updated reply name (twoParts start size) hosts k) (inside : 1024 * k < size) :
    (hosts (addressOf (reply.entry k))).files (blockPath (hosts (addressOf (reply.entry k))) name k) ≠
      some (List.replicate 1024 0) := by
  intro zeros
  obtain ⟨bytes, stored, before⟩ := updated.content
  obtain rfl := Option.some.inj (stored.symm.trans zeros)
  have first := first_of_front before ((getElem?_piece _ (by decide)).trans (getElem?_twoParts inside))
  rw [List.getElem?_replicate, if_pos (by decide)] at first
  split at first
  · exact absurd (Option.some.inj first) (by decide)
  · exact absurd (Option.some.inj first) (by decide)

theorem UpdatesRange.wholeBlock (updates : UpdatesRange n filename image size start stop) (reached : Reaches h n)
    (there : ImageAt n filename.bytes i image) (range : start ≤ stop ∧ stop < size) (int : size < 2147483648) :
    OneWholeBlock filename.bytes image size start stop := by
  have table := reached.holds.1
  obtain ⟨messages, n', reply, run, answered, rest⟩ := updates (twoParts start size) (fun _ => .zero) .zero zeroHosts
    (length_twoParts (by omega)) fun j _ => ⟨_, rfl⟩
  obtain ⟨hosts', delivered, updated, -⟩ := rest messages (.refl _)
  have room := modifyRequest_room table there ((answer_modify n size _).symm.trans answered)
  rw [modifyFile_eq there answered range.1] at run
  obtain ⟨sent, loop, same⟩ := bind_ok run
  obtain ⟨rfl, -⟩ := Prod.mk.inj (Except.ok.inj same)
  obtain ⟨inside, ip, address⟩ := modifyBlocks_inv loop
  rw [modifyBlocks_ok inside address] at loop
  obtain rfl := Except.ok.inj loop
  have ordered : start / 1024 ≤ stop / 1024 := Nat.div_le_div_right range.1
  have id := (updated (start / 1024) (Nat.le_refl _) ordered).blockId
  obtain ⟨owner, string⟩ : ∃ owner, cstr (reply.entry (start / 1024)).ownerName = .ok owner := by
    rw [List.range_succ_eq_map, List.map_cons, List.map_cons] at delivered
    obtain ⟨hosts₁, first, -⟩ := bind_ok delivered
    exact deliver_owner first
  obtain ⟨hosts₁, all, directories, kept⟩ := replaceAll_ok inside string id .zero zeroHosts _
  obtain rfl := Except.ok.inj (all.symm.trans delivered)
  -- Each block of the range was stored to, so that each is the one that all messages go to.
  have each : ∀ k, start / 1024 ≤ k → k ≤ stop / 1024 → owner = filename.bytes ∧ start / 1024 = k := by
    intro k low high
    by_contra other
    refine (updated k low high).touched (by omega) ?_
    rw [blockPath, directories, ← blockPath, kept _ _ fun both => other (blockPath_inj both.2.symm)]
    rfl
  obtain ⟨rfl, -⟩ := each (start / 1024) (Nat.le_refl _) ordered
  have one := (each (stop / 1024) ordered (Nat.le_refl _)).2
  refine ⟨?_, one, room, ?_⟩
  · by_contra unaligned
    rw [← one, Nat.sub_self] at delivered
    obtain ⟨hosts₁, first, last⟩ := bind_ok delivered
    obtain rfl := Except.ok.inj last
    obtain ⟨hosts₂, first', -, files⟩ := @deliver_write filename.bytes (start / 1024) { reply.entry (start / 1024) with
      content := (reply.entry (start / 1024)).content.patch 0 (((twoParts start size).drop start).take DFS_BLOCK_SIZE) }
      inside string id (addressOf (reply.entry (start / 1024))) .zero zeroHosts
    obtain rfl := Except.ok.inj (first'.symm.trans first)
    obtain ⟨bytes, stored, before⟩ := (updated (start / 1024) (Nat.le_refl _) ordered).content
    rw [blockPath, directories, ← blockPath, files, if_pos ⟨rfl, rfl⟩] at stored
    obtain rfl := Option.some.inj stored
    have wanted := first_of_front before ((getElem?_piece _ (by decide)).trans
      (getElem?_twoParts (show 1024 * (start / 1024) < size by omega)))
    have below : DFS_BLOCK_SIZE * (start / 1024) + 0 < start := show 1024 * (start / 1024) + 0 < start by omega
    have sent : (((twoParts start size).drop start).take DFS_BLOCK_SIZE)[0]? = some 2 := by
      rw [List.getElem?_take_of_lt (by decide), List.getElem?_drop, Nat.add_zero, getElem?_twoParts (by omega), if_neg (by omega)]
    rw [first_of_front (front_patch _ (List.length_take_le ..)) sent, if_pos below] at wanted
    exact absurd (Option.some.inj wanted) (by decide)
  · by_cases counted : ((start / 1024 : Nat) : Int) < blockCount size
    · exact .inl counted
    · right
      have needed : blocksFor size = (size + 1023) / 1024 := rfl
      have none := (blockCount_cases int).resolve_left (by omega)
      have blocknum := table.blocknum i image there.entry
      have unchanged := getFileUpdatePoint_enough table there (cstr_modifyRequest there size)
        (Int.le_trans none blocknum.1)
      rw [answer_modify, unchanged] at answered
      obtain ⟨same, -⟩ := Prod.mk.inj (Except.ok.inj answered)
      obtain rfl := Reply.file.inj (Option.some.inj same)
      exact ⟨inside, string, id, ip, address⟩

/-- A modification does what it should exactly when the range is within one block and begins with it. -/
theorem updates_range_iff (reached : Reaches h n) (there : ImageAt n filename.bytes i image) (range : start ≤ stop ∧ stop < size)
    (int : size < 2147483648) :
    UpdatesRange n filename image size start stop ↔ OneWholeBlock filename.bytes image size start stop :=
  ⟨fun updates => updates.wholeBlock reached there range int, fun whole => updatesRange_of reached there range int whole⟩

/-! ### One datanode and two pushes -/

/-- The block of a file is replaced as a whole. -/
theorem whole_block_updated : ∃ n image, UpdatesRange n fileName image 1024 0 1023 := by
  obtain ⟨h, n, i, -, image, -, reached, there, -⟩ := pushed_reached
  exact ⟨n, image, (updates_range_iff reached there ⟨by decide, by decide⟩ (by decide)).mpr
    ⟨rfl, rfl, by decide, .inl (by decide)⟩⟩

/-- Two bytes that do not begin the block are put at its front. -/
theorem inner_range_misplaced : ¬ ∀ (h : History) (n : Namenode) (filename : CString) (i : Fin MAX_FILE_COUNT) (image : FileDesc)
    (size start stop : Nat), Reaches h n → ImageAt n filename.bytes i image → start ≤ stop → stop < size → size < 2147483648 →
    UpdatesRange n filename image size start stop := by
  intro claim
  obtain ⟨h, n, i, -, image, -, reached, there, -⟩ := pushed_reached
  have updates := claim h n fileName i image 1024 1 2 reached there (by decide) (by decide) (by decide)
  have aligned := (updates.wholeBlock reached there ⟨by decide, by decide⟩ (by decide)).aligned
  exact absurd aligned (by decide)

end StorageStack.Dfs
