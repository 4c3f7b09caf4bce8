import StorageStack.Dfs.Framing
import StorageStack.Dfs.Locations
import StorageStack.Dfs.PushAgain
import StorageStack.Dfs.RoundTrip

/-!
# Replies that are dropped

The namenode closes the connection when it has nothing to answer, and then `recv` returns 0 for ever. Neither
`receive_data` nor its callers look for that.
-/

namespace StorageStack.Dfs
open Lib CString

variable {n : Namenode} {r : ClientReq} {name data stream : List UInt8} {fileInfo : FileDesc} {size received : Nat}
  {ready : List Int}

/-- What waits for bytes. `ready k` is how much round `k` of the loop can deliver, as long as the stream has it. -/
inductive Wait where
  | receive (size : Nat) (data : List UInt8) (ready : Nat → Int) (stream : List UInt8)
  | pull (hosts : Hosts) (buffers : Nat → Bytes DFS_BLOCK_SIZE) (fileBlock : Int → BlockDesc) (request : ClientReq)
      (filename : CString)
  | push (fileBlock : Int → BlockDesc) (request : ClientReq) (localPath : CString) (file : List UInt8)

/-- The buffer has the size of the message, or the name fits into its field. -/
def Wait.Proper : Wait → Prop
  | receive size data ready _ => data.length = size ∧ ∀ k, 1 ≤ ready k
  | pull _ _ _ _ filename => filename.bytes.length < 256
  | push _ _ localPath _ => localPath.bytes.length < 256

/-- The loop stops, be it with a transfer that runs past the buffer, since its counter is then past `size`; a call of the
client has a result. A datanode that goes wrong sends no reply either. -/
def Wait.Returns (n : Namenode) : Wait → Prop
  | receive size data ready stream => ∃ rounds, Ends (receiveData data size ((List.range rounds).map ready) stream)
  | pull hosts buffers fileBlock request filename => ∃ file, pullFile n hosts buffers fileBlock request filename = .ok file
  | push fileBlock request localPath file => ∃ messages n', pushFile n fileBlock request localPath file = .ok (messages, n')

/-- The datanode of block `k` has a file for it, and a string in what it reads. -/
def Serves (hosts : Hosts) (buffer : Bytes DFS_BLOCK_SIZE) (image : FileDesc) (name : List UInt8) (k : Nat) : Prop :=
  ∃ bytes, (hosts (addressOf (image.entry k))).files (blockPath (hosts (addressOf (image.entry k))) name k) = some bytes ∧
    0 ∈ (buffer.patch 0 (bytes.take DFS_BLOCK_SIZE)).toList

/-- The whole message is there; the name has an entry whose blocks are served; the name has an entry, or can get one,
and the blocks fit behind those of the entry. -/
def Wait.ReturnsWhen (n : Namenode) : Wait → Prop
  | receive size _ _ stream => size ≤ stream.length
  | pull hosts buffers _ _ filename => ∃ i image, ImageAt n filename.bytes i image ∧
      ∀ k : Nat, (k : Int) < image.blocknum → Serves hosts (buffers k) image filename.bytes k
  | push _ _ localPath file =>
      (∃ i image, ImageAt n localPath.bytes i image ∧
        image.blocknum + (blockCount (toInt32 file.length)).toNat ≤ MAX_FILE_BLK_COUNT) ∨
      (∀ i image, ¬ ImageAt n localPath.bytes i image) ∧ (∃ i, n.fileImages i = none) ∧
        (blockCount (toInt32 file.length)).toNat ≤ MAX_FILE_BLK_COUNT

/-- The blocks of every file have its name, their number and an address. -/
def Addressed (n : Namenode) : Prop := ∀ name i image, ImageAt n name i image → ∀ k : Nat, (k : Int) < image.blocknum →
  cstr (image.entry k).ownerName = .ok name ∧ (image.entry k).blockId = k ∧ 0 ∈ (image.entry k).locIp.toList

/-! ### The loop -/

/-- Each round gets at least one byte, or leaves the buffer. -/
theorem receiveLoop_ends (positive : ∀ k ∈ ready, 1 ≤ k) (rounds : size ≤ received + ready.length)
    (available : size ≤ received + stream.length) : Ends (receiveLoop size ready received data stream) := by
  induction ready generalizing received data stream with
  | nil =>
    rw [List.length_nil] at rounds
    rw [receiveLoop, if_neg (by omega)]
    exact ends_ok _
  | cons k ready ih =>
    have some := positive k (List.mem_cons_self ..)
    rw [receiveLoop]
    by_cases more : received < size
    · rw [if_pos more, if_neg (by omega)]
      dsimp only
      have got : (stream.take k.toNat).length = min k.toNat stream.length := List.length_take
      rw [List.length_cons] at rounds
      refine Ends.bind (ends_guard fun _ => ends_ok _) fun data' _ => ?_
      refine ih (fun k' member => positive k' (List.mem_cons_of_mem _ member)) (by omega) ?_
      rw [List.length_drop]
      omega
    · rw [if_neg more]
      exact ends_ok _

/-- A message that the stream does not have is waited for. -/
theorem receiveLoop_spins (length : data.length = size) (short : received + stream.length < size) :
    receiveLoop size ready received data stream = .error .spins := by
  induction ready generalizing received data stream with
  | nil => rw [receiveLoop, if_pos (by omega)]
  | cons k ready ih =>
    rw [receiveLoop, if_pos (by omega)]
    split
    · exact ih length short
    · dsimp only
      have got : (stream.take k.toNat).length = min k.toNat stream.length := List.length_take
      have fits : received + (stream.take k.toNat).length ≤ data.length := by omega
      rw [blit, if_pos fits, ok_bind]
      refine ih ((length_overlay fits).trans length) ?_
      rw [List.length_drop]
      omega

theorem receiveData_ends_iff {schedule : Nat → Int} (length : data.length = size) (positive : ∀ k, 1 ≤ schedule k) :
    (∃ rounds, Ends (receiveData data size ((List.range rounds).map schedule) stream)) ↔ size ≤ stream.length := by
  constructor
  · intro ⟨rounds, ends⟩
    by_contra short
    exact ends (receiveLoop_spins length (by omega))
  · intro available
    refine ⟨size, receiveLoop_ends (fun k member => ?_) ?_ (by omega)⟩
    · obtain ⟨i, -, rfl⟩ := List.mem_map.mp member
      exact positive i
    · rw [List.length_map, List.length_range]
      omega

/-! ### Pulling -/

theorem Reaches.addressed {h : History} (reached : Reaches h n) : Addressed n := by
  intro name i image there k below
  have located := reached.locates.1 i image there.entry name there.name k below
  obtain ⟨status, ip, reply, -, -, -, address, -⟩ := located.address
  exact ⟨located.owner, located.blockId, ends_of_cstr address⟩

theorem connect_ok {block : BlockDesc} (ends : 0 ∈ block.locIp.toList) : connect block = .ok (addressOf block) := by
  rw [connect, scan_of_cstr ends, ok_bind, addressOf]

/-- A datanode answers a read request exactly when it has the file and a string in its buffer. -/
theorem readBlock_ok_iff {host : Host} {block : BlockDesc} {k : Nat} {buffer : Bytes DFS_BLOCK_SIZE} (small : k < 100)
    (owner : cstr block.ownerName = .ok name) (id : block.blockId = k) :
    (∃ returned, readBlock host ⟨0, block⟩ buffer = .ok returned) ↔ ∃ bytes, host.files (blockPath host name k) = some bytes ∧
      0 ∈ (buffer.patch 0 (bytes.take DFS_BLOCK_SIZE)).toList := by
  rw [readBlock]
  dsimp only
  rw [owner, ok_bind, id, extReadBlock, getBlockFilePath_ok host name small, ok_bind]
  cases stored : host.files (blockPath host name k) with
  | none =>
    refine iff_of_false ?_ ?_
    · rintro ⟨_, run⟩
      cases run
    · rintro ⟨bytes, missing, -⟩
      cases missing
  | some bytes =>
    dsimp only
    rw [ok_bind, strcpy_ok _ (cstr_length owner), ok_bind]
    constructor
    · rintro ⟨returned, run⟩
      obtain ⟨s, string, -⟩ := bind_ok run
      exact ⟨bytes, rfl, ends_of_cstr string⟩
    · rintro ⟨bytes', same, ends⟩
      obtain rfl := Option.some.inj same
      have short := length_scan_lt ends
      rw [Bytes.length_toList] at short
      rw [scan_of_cstr ends, ok_bind, strcpy_ok _ short, ok_bind]
      exact ⟨_, rfl⟩

theorem readBlock_content {host : Host} {block returned : BlockDesc} {buffer : Bytes DFS_BLOCK_SIZE}
    (run : readBlock host ⟨0, block⟩ buffer = .ok returned) : ∃ s, cstr returned.content = .ok s ∧ s.length < DFS_BLOCK_SIZE := by
  obtain ⟨name', -, run⟩ := bind_ok run
  obtain ⟨buffer', -, run⟩ := bind_ok run
  obtain ⟨ownerName, -, run⟩ := bind_ok run
  obtain ⟨s, string, run⟩ := bind_ok run
  obtain ⟨content, copied, run⟩ := bind_ok run
  obtain rfl := Except.ok.inj run
  have short := cstr_length string
  rw [strcpy_ok _ short] at copied
  obtain rfl := Except.ok.inj copied
  exact ⟨s, cstr_strcpy _ (cstr_nonzero string) short, short⟩

theorem pullBlocks_ok_iff {hosts : Hosts} {buffers : Nat → Bytes DFS_BLOCK_SIZE} {image : FileDesc} {remaining count : Nat}
    (inside : count + remaining ≤ 100)
    (addressed : ∀ k, count ≤ k → k < count + remaining → cstr (image.entry k).ownerName = .ok name ∧
      (image.entry k).blockId = k ∧ 0 ∈ (image.entry k).locIp.toList) :
    (∃ contents, pullBlocks hosts buffers image remaining count = .ok contents) ↔
      ∀ k, count ≤ k → k < count + remaining → Serves hosts (buffers k) image name k := by
  induction remaining generalizing count with
  | zero => exact iff_of_true ⟨[], rfl⟩ fun k low high => by omega
  | succ remaining ih =>
    have rest := @ih (count + 1) (by omega) fun k low high => addressed k (by omega) (by omega)
    obtain ⟨owner, id, ends⟩ := addressed count (Nat.le_refl _) (by omega)
    have here := @readBlock_ok_iff name (hosts (addressOf (image.entry count))) (image.entry count) count (buffers count)
      (by omega) owner id
    rw [pullBlocks, block_ok image (show count < 100 by omega), ok_bind, connect_ok ends, ok_bind, serve, if_pos rfl]
    constructor
    · rintro ⟨contents, run⟩
      obtain ⟨answer, served, run⟩ := bind_ok run
      obtain ⟨returned, read, same⟩ := bind_ok served
      obtain ⟨_, -, run⟩ := bind_ok run
      obtain ⟨_, -, run⟩ := bind_ok run
      obtain ⟨_, -, run⟩ := bind_ok run
      obtain ⟨others, behind, -⟩ := bind_ok run
      intro k low high
      by_cases first : k = count
      · subst first
        exact here.mp ⟨returned, read⟩
      · exact rest.mp ⟨others, behind⟩ k (by omega) (by omega)
    · intro served
      obtain ⟨returned, read⟩ := here.mpr (served count (Nat.le_refl _) (by omega))
      obtain ⟨s, string, short⟩ := readBlock_content read
      obtain ⟨others, behind⟩ := rest.mpr fun k low high => served k (by omega) (by omega)
      rw [read, ok_bind, ok_bind]
      dsimp only [receive]
      rw [ok_bind, string, ok_bind, strcpy_ok _ short, ok_bind, behind, ok_bind]
      exact ⟨_, rfl⟩

theorem pullFile_ok_iff (table : TableOk n) (addressed : Addressed n) {hosts : Hosts} {buffers : Nat → Bytes DFS_BLOCK_SIZE}
    {fileBlock : Int → BlockDesc} {filename : CString} (short : filename.bytes.length < 256) :
    (∃ file, pullFile n hosts buffers fileBlock r filename = .ok file) ↔ ∃ i image, ImageAt n filename.bytes i image ∧
      ∀ k : Nat, (k : Int) < image.blocknum → Serves hosts (buffers k) image filename.bytes k := by
  have string := cstr_strcpy r.fileName filename.nonzero short
  rw [pullFile, strcpy_ok _ short, ok_bind, answer, if_pos rfl, getFileLocation, string, ok_bind]
  rcases findImage_cases table filename.nonzero with ⟨i, image, there, found⟩ | ⟨absent, missing⟩
  · have blocknum : 0 ≤ image.blocknum ∧ image.blocknum ≤ 100 := table.blocknum i image there.entry
    have blocks := @pullBlocks_ok_iff filename.bytes hosts buffers image image.blocknum.toNat 0 (by omega) fun k _ high =>
      addressed _ i image there k (by omega)
    rw [found, ok_bind]
    dsimp only
    rw [ok_bind]
    dsimp only [queryResult, Option.bind_some, receive]
    rw [ok_bind]
    constructor
    · rintro ⟨file, run⟩
      obtain ⟨contents, pulled, -⟩ := bind_ok run
      exact ⟨i, image, there, fun k below => blocks.mp ⟨contents, pulled⟩ k (Nat.zero_le k) (by omega)⟩
    · rintro ⟨i', image', there', served⟩
      obtain rfl := table.distinct i' i image' image _ there' there
      obtain rfl := Option.some.inj (there'.entry.symm.trans there.entry)
      obtain ⟨contents, pulled⟩ := blocks.mpr fun k _ high => served k (by omega)
      rw [pulled, ok_bind]
      exact ⟨_, rfl⟩
  · rw [missing, ok_bind]
    refine iff_of_false ?_ ?_
    · rintro ⟨_, run⟩
      cases run
    · rintro ⟨i, image, there, -⟩
      exact absent i image there

/-! ### Pushing -/

theorem pushBlocks_sends {image : FileDesc} {remaining count : Nat} {file : List UInt8} (inside : count + remaining ≤ 100)
    (addressed : ∀ k, count ≤ k → k < count + remaining → 0 ∈ (image.entry k).locIp.toList) :
    ∃ messages, pushBlocks image remaining count file = .ok messages := by
  induction remaining generalizing count file with
  | zero => exact ⟨[], rfl⟩
  | succ remaining ih =>
    obtain ⟨messages, behind⟩ := @ih (count + 1) (file.drop DFS_BLOCK_SIZE) (by omega) fun k low high =>
      addressed k (by omega) (by omega)
    have ends := addressed count (Nat.le_refl _) (by omega)
    rw [pushBlocks, block_ok image (show count < 100 by omega), ok_bind]
    dsimp only
    rw [connect, scan_of_cstr ends, ok_bind, ok_bind, behind, ok_bind]
    exact ⟨_, rfl⟩

theorem entry_blocknum (image : FileDesc) (blocknum : Int) (k : Nat) :
    FileDesc.entry { image with blocknum } k = image.entry k := rfl

/-- A push that has an entry sends its blocks exactly when they fit behind those of the entry. -/
theorem pushFile_entry_iff (registered : Registered n) {fileBlock : Int → BlockDesc} {localPath : CString} {file : List UInt8}
    (short : localPath.bytes.length < 256) {i : Fin MAX_FILE_COUNT} {image : FileDesc}
    (entry : imageFor n ⟨r.fileName.patch 0 (localPath.bytes ++ [0]), toInt32 file.length, 1⟩ localPath.bytes =
      .ok (some (i, image)))
    (range : 0 ≤ image.blocknum ∧ image.blocknum ≤ 100)
    (addressed : ∀ k : Nat, (k : Int) < image.blocknum → 0 ∈ (image.entry k).locIp.toList) :
    (∃ messages n', pushFile n fileBlock r localPath file = .ok (messages, n')) ↔
      image.blocknum + (blockCount (toInt32 file.length)).toNat ≤ MAX_FILE_BLK_COUNT := by
  have string := cstr_strcpy r.fileName localPath.nonzero short
  obtain ⟨lo, below⟩ := Int.eq_ofNat_of_zero_le range.1
  rw [pushFile, strcpy_ok _ short, ok_bind, answer_write n rfl, getFileReceivers, string, ok_bind, entry, ok_bind]
  dsimp only
  generalize blockCount (toInt32 file.length) = blocks
  constructor
  · rintro ⟨messages, n', run⟩
    obtain ⟨reply, answered, -⟩ := bind_ok run
    obtain ⟨image', placed, -⟩ := bind_ok answered
    by_cases some : 0 < blocks.toNat
    · exact (assignBlocks_range some placed).2
    · show image.blocknum + blocks.toNat ≤ 100
      omega
  · intro fits
    change image.blocknum + blocks.toNat ≤ 100 at fits
    obtain ⟨image', placed, assigned⟩ := @assignBlocks_ok n localPath.bytes fileBlock { image with blocknum := blocks }
      registered localPath.nonzero (by omega) 1 blocks.toNat lo (show lo + blocks.toNat ≤ 100 by omega) 0
    have blocknum : image'.blocknum = blocks := assigned.blocknum
    have strings : ∀ k < blocks.toNat, 0 ∈ (image'.entry k).locIp.toList := fun k high => by
      by_cases old : (k : Int) < image.blocknum
      · rw [assigned.kept k (.inl (by omega)), entry_blocknum]
        exact addressed k old
      · obtain ⟨-, datanode, -, -, ip, -⟩ := (assigned.placed k (by omega) (by omega)).node
        exact ends_of_cstr ip
    obtain ⟨messages, sent⟩ := @pushBlocks_sends image' blocks.toNat 0 file (by omega) fun k _ high =>
      strings k (by omega)
    rw [below, placed, ok_bind, ok_bind]
    dsimp only [queryResult, Option.bind_some, receive]
    rw [ok_bind, blocknum, sent, ok_bind]
    exact ⟨_, _, rfl⟩

theorem pushFile_ok_iff (table : TableOk n) (registered : Registered n) (addressed : Addressed n) {fileBlock : Int → BlockDesc}
    {localPath : CString} {file : List UInt8} (short : localPath.bytes.length < 256) :
    (∃ messages n', pushFile n fileBlock r localPath file = .ok (messages, n')) ↔
      (∃ i image, ImageAt n localPath.bytes i image ∧
        image.blocknum + (blockCount (toInt32 file.length)).toNat ≤ MAX_FILE_BLK_COUNT) ∨
      (∀ i image, ¬ ImageAt n localPath.bytes i image) ∧ (∃ i, n.fileImages i = none) ∧
        (blockCount (toInt32 file.length)).toNat ≤ MAX_FILE_BLK_COUNT := by
  have string := cstr_strcpy r.fileName localPath.nonzero short
  by_cases known : ∃ i image, ImageAt n localPath.bytes i image
  · obtain ⟨i, image, there⟩ := known
    rw [pushFile_entry_iff registered short (imageFor_at table there) (table.blocknum i image there.entry) fun k below =>
      (addressed _ i image there k below).2.2]
    constructor
    · exact fun fits => .inl ⟨i, image, there, fits⟩
    · rintro (⟨i', image', there', fits⟩ | ⟨absent, -⟩)
      · obtain rfl := table.distinct i' i image' image _ there' there
        obtain rfl := Option.some.inj (there'.entry.symm.trans there.entry)
        exact fits
      · exact absurd there (absent i image)
  have absent : ∀ i image, ¬ ImageAt n localPath.bytes i image := fun i image there => known ⟨i, image, there⟩
  by_cases free : ∃ i, n.fileImages i = none
  · obtain ⟨⟨i, image⟩, entry, none⟩ :=
      @imageFor_new n ⟨r.fileName.patch 0 (localPath.bytes ++ [0]), toInt32 file.length, 1⟩ _ table string absent free
    have none : image.blocknum = 0 := none
    rw [pushFile_entry_iff registered short entry (by omega) fun k below => by omega, none, Int.zero_add, Int.ofNat_le]
    constructor
    · exact fun fits => .inr ⟨absent, free, fits⟩
    · rintro (⟨i, image, there, -⟩ | ⟨-, -, fits⟩)
      · exact absurd there (absent i image)
      · exact fits
  · refine iff_of_false ?_ ?_
    · rintro ⟨messages, n', run⟩
      rw [pushFile, strcpy_ok _ short, ok_bind, answer_write n rfl, getFileReceivers, string, ok_bind,
        imageFor_refused table localPath.nonzero absent
        fun i => Option.isSome_iff_ne_none.mpr fun empty => free ⟨i, empty⟩] at run
      cases run
    · rintro (⟨i, image, there, -⟩ | ⟨-, room, -⟩)
      · exact absent i image there
      · exact free room

/-- Whoever waits for a message gets on exactly when it is sent. -/
theorem returns_iff (table : TableOk n) (registered : Registered n) (addressed : Addressed n) (w : Wait) (proper : w.Proper) :
    w.Returns n ↔ w.ReturnsWhen n := by
  cases w with
  | receive size data ready stream => exact receiveData_ends_iff proper.1 proper.2
  | pull hosts buffers fileBlock request filename => exact pullFile_ok_iff table addressed proper
  | push fileBlock request localPath file => exact pushFile_ok_iff table registered addressed proper

/-! ### One datanode and no file -/

theorem fileName_short : fileName.bytes.length < 256 := by decide

theorem first_push_returns : (Wait.push (fun _ => .zero) ⟨.zero, 0, 0⟩ fileName [7]).Returns oneRegistered :=
  (returns_iff oneRegistered_reached.holds.1 ⟨0, rfl⟩ oneRegistered_reached.addressed
    (.push (fun _ => .zero) ⟨.zero, 0, 0⟩ fileName [7]) fileName_short).mpr
    (.inr ⟨fun _ _ there => (by cases there.entry), ⟨0, rfl⟩, by decide⟩)

/-- A file that nobody pushed. -/
theorem unknown_pull_hangs : ¬ ∀ (n : Namenode) (w : Wait), TableOk n → Registered n → Addressed n → w.Proper → w.Returns n := by
  intro claim
  have table := oneRegistered_reached.holds.1
  have addressed := oneRegistered_reached.addressed
  have returned := claim oneRegistered
    (.pull (fun _ => ⟨1, fileName, fun _ => none⟩) (fun _ => .zero) (fun _ => .zero) ⟨.zero, 0, 0⟩ fileName) table ⟨0, rfl⟩
    addressed fileName_short
  obtain ⟨i, image, there, -⟩ := (pullFile_ok_iff table addressed fileName_short).mp returned
  cases there.entry

end StorageStack.Dfs
