import Mathlib.Data.List.Forall2
import StorageStack.Dfs.Modify
import StorageStack.Dfs.Streams

/-!
# Files by name

What the three programs are for, without addresses and messages: which datanodes are there, which files, what is known of
their blocks, and which blocks are still on their way. A block is known once a write of it was handled. Every run of the
programs answers so, with the requests in flight handled in any order.
-/

namespace StorageStack.Dfs
open Lib CString Codec

local instance lawfulBytes : LawfulBEq (List UInt8) := inferInstance

/-- A block on its way to a datanode. -/
structure Write where
  name : List UInt8
  block : Nat
  bytes : List UInt8

structure Catalogue where
  nodes : Finset (Fin MAX_DATANODE_NUM)
  names : List (List UInt8)
  blocks : List UInt8 → List (Option (List UInt8))
  pending : List Write

namespace Catalogue

def start : Catalogue := ⟨∅, [], fun _ => [], []⟩

def register (cat : Catalogue) (datanodeId : Int) : Catalogue :=
  { cat with nodes := cat.nodes ∪ Finset.univ.filter fun i => datanodeId = i.val + 1 ∧ datanodeId < MAX_DATANODE_NUM }

/-- The blocks of a file that is pushed are known again when they have arrived. -/
def push (cat : Catalogue) (name file : List UInt8) : Catalogue :=
  { cat with
    names := if name ∈ cat.names then cat.names else cat.names ++ [name]
    blocks := Function.update cat.blocks name (List.replicate (file.length / DFS_BLOCK_SIZE) none)
    pending := cat.pending ++ (List.range (file.length / DFS_BLOCK_SIZE)).map fun k => ⟨name, k, piece file DFS_BLOCK_SIZE k⟩ }

/-- How many blocks the range touches. -/
def touched (start stop : Nat) : Nat := stop / DFS_BLOCK_SIZE - start / DFS_BLOCK_SIZE + 1

/-- The bytes from `start` on go to its block, one block after the other. -/
def modify (cat : Catalogue) (name file : List UInt8) (start stop : Nat) : Catalogue :=
  { cat with pending := cat.pending ++ (List.range (touched start stop)).map fun j =>
      ⟨name, start / DFS_BLOCK_SIZE, piece (file.drop start) DFS_BLOCK_SIZE j⟩ }

def file (cat : Catalogue) (name : List UInt8) : List UInt8 := (cat.blocks name).flatMap fun block => block.getD []

def handle (cat : Catalogue) (place : Nat) : Catalogue :=
  match cat.pending[place]? with
  | none => cat
  | some w =>
    { cat with
      blocks := Function.update cat.blocks w.name ((cat.blocks w.name).set w.block (some w.bytes))
      pending := cat.pending.eraseIdx place }

end Catalogue

def Job.onCatalogue : Job → Catalogue → Outcome (List Result × Catalogue)
  | .heartbeat datanodeId _ _, cat => .ok ([], cat.register datanodeId)
  | .push _ _ localPath file, cat => .ok ([], cat.push localPath.bytes file)
  | .modify _ filename file _ startAddr endAddr, cat => .ok ([], cat.modify filename.bytes file startAddr.toNat endAddr.toNat)
  | .pull _ _ filename _, cat => .ok ([.file (cat.file filename.bytes)], cat)
  | .info .., cat => .ok ([.system cat.nodes.card], cat)
  | .deliver place _, cat => .ok ([], cat.handle place)

/-- Whole blocks with room for them, and for a pull, only blocks that are known and have their only zero at the end. A file
is pushed again only after its blocks have arrived. -/
def Job.Suits : Job → Catalogue → Prop
  | .heartbeat datanodeId _ _, _ => 1 ≤ datanodeId
  | .push _ _ localPath file, cat => cat.nodes.Nonempty ∧ localPath.bytes.length ≤ 255 ∧ file.length % DFS_BLOCK_SIZE = 0 ∧
      (cat.blocks localPath.bytes).length + file.length / DFS_BLOCK_SIZE ≤ MAX_FILE_BLK_COUNT ∧
      (localPath.bytes ∈ cat.names ∨ cat.names.length < MAX_FILE_COUNT) ∧ ∀ w ∈ cat.pending, w.name ≠ localPath.bytes
  | .modify _ filename file fileSize startAddr endAddr, cat => filename.bytes ∈ cat.names ∧
      0 ≤ fileSize ∧ blocksFor fileSize ≤ MAX_FILE_BLK_COUNT ∧ 0 ≤ startAddr ∧ startAddr ≤ endAddr ∧
      startAddr.toNat / DFS_BLOCK_SIZE < (cat.blocks filename.bytes).length ∧
      startAddr.toNat + DFS_BLOCK_SIZE * Catalogue.touched startAddr.toNat endAddr.toNat ≤ file.length
  | .pull _ _ filename _, cat => filename.bytes ∈ cat.names ∧
      ∀ block ∈ cat.blocks filename.bytes, ∃ bytes ∈ block, scan bytes ++ [0] = bytes
  | .info .., cat => cat.nodes.Nonempty
  | .deliver .., _ => True

/-! ### The relation -/

/-- The datanode of block `k` has these bytes for it. -/
def Stores (hosts : Hosts) (image : FileDesc) (name : List UInt8) (k : Nat) (bytes : List UInt8) : Prop :=
  (hosts (addressOf (image.entry k))).files (blockPath (hosts (addressOf (image.entry k))) name k) = some bytes

/-- The message takes the block where the namenode lists it. -/
structure Carries (n : Namenode) (m : Message) (w : Write) : Prop where
  listed : ∃ i image, ImageAt n w.name i image ∧ (w.block : Int) < image.blocknum ∧ m.address = addressOf (image.entry w.block)
  opType : m.request.opType = 1
  owner : cstr m.request.block.ownerName = .ok w.name
  blockId : m.request.block.blockId = w.block
  content : m.request.block.content.toList = w.bytes

structure Catalogued (s : Cluster Message) (cat : Catalogue) : Prop where
  reached : ∃ h, Reaches h s.namenode
  nodes : present s.namenode = cat.nodes
  places : ∀ i, (s.namenode.fileImages i).isSome ↔ i.val < cat.names.length
  names : ∀ name, name ∈ cat.names ↔ ∃ i image, ImageAt s.namenode name i image
  blocks : ∀ name i image, ImageAt s.namenode name i image → image.blocknum = (cat.blocks name).length ∧
    ∀ k bytes, (cat.blocks name)[k]? = some (some bytes) → bytes.length = DFS_BLOCK_SIZE ∧ Stores s.hosts image name k bytes
  pending : List.Forall₂ (Carries s.namenode) s.inFlight cat.pending

variable {h : History} {s s' : Cluster Message} {cat cat' : Catalogue} {n n' : Namenode} {name name' file bytes : List UInt8}
  {r : ClientReq} {i j : Fin MAX_FILE_COUNT} {image image' other : FileDesc} {hosts : Hosts} {k : Nat} {m : Message} {w : Write}

theorem Reaches.listed (reached : Reaches h n) (there : ImageAt n name i image) (below : (k : Int) < image.blocknum) :
    Listed name k (image.entry k) := by
  have blocknum := reached.holds.1.blocknum i image there.entry
  exact (reached.locates.1 i image there.entry name there.name k below).listed (by omega)

theorem Catalogued.registered (catalogued : Catalogued s cat) (some : cat.nodes.Nonempty) : Registered s.namenode := by
  obtain ⟨i, member⟩ := some
  rw [← catalogued.nodes, present, Finset.mem_filter] at member
  exact ⟨i, member.2⟩

/-! ### Heartbeats -/

theorem imageAt_congr (same : n'.fileImages = n.fileImages) : ImageAt n' name i image ↔ ImageAt n name i image := by
  constructor
  · intro there
    exact ⟨same ▸ there.entry, there.name⟩
  · intro there
    exact ⟨same ▸ there.entry, there.name⟩

theorem present_register {status : DatanodeStatus} {ip : IpString} (low : 1 ≤ status.datanodeId)
    (run : registerDatanode n status ip = .ok n') : present n' =
      present n ∪ Finset.univ.filter fun i => status.datanodeId = i.val + 1 ∧ status.datanodeId < MAX_DATANODE_NUM := by
  ext i
  simp only [present, Finset.mem_union, Finset.mem_filter, Finset.mem_univ, true_and]
  rcases registerDatanode_ok n ip low with ⟨big, run'⟩ | ⟨index, id, accepted, run'⟩
  · obtain rfl := Except.ok.inj (run.symm.trans run')
    exact (or_iff_left fun both => absurd both.2 (not_lt.mpr big)).symm
  · obtain rfl := Except.ok.inj (run.symm.trans run')
    rw [Namenode.register]
    dsimp only
    by_cases here : i = index
    · subst here
      rw [Function.update_self]
      exact iff_of_true rfl (.inr ⟨id, accepted⟩)
    · rw [Function.update_of_ne here]
      refine (or_iff_left fun both => here (Fin.ext ?_)).symm
      omega

theorem Catalogued.heartbeat (catalogued : Catalogued s cat) {datanodeId : Int} (low : 1 ≤ datanodeId) (port : Int)
    (ip : IpString) :
    ∃ n', Dfs.heartbeat s.namenode datanodeId port ip = .ok n' ∧
      Catalogued { s with namenode := n' } (cat.register datanodeId) := by
  obtain ⟨h, reached⟩ := catalogued.reached
  obtain ⟨n', run, images, -⟩ := @Registration.heartbeat s.namenode h ⟨datanodeId, htons port⟩ ip reached.holds.2 low none
  have same : ∀ name i image, ImageAt n' name i image ↔ ImageAt s.namenode name i image := fun _ _ _ => imageAt_congr images
  refine ⟨n', run, ?_⟩
  constructor
  case reached => exact ⟨_, .step (e := .heartbeat ⟨datanodeId, htons port⟩ ip) reached low (by rw [Event.run, run, ok_bind])⟩
  case nodes => rw [present_register low run, catalogued.nodes, Catalogue.register]
  case places =>
    dsimp only
    rw [images]
    exact catalogued.places
  case names =>
    intro name
    dsimp only
    simp only [same]
    exact catalogued.names name
  case blocks => exact fun name i image there => catalogued.blocks name i image ((same ..).mp there)
  case pending =>
    refine catalogued.pending.imp fun m w carries => ⟨?_, carries.opType, carries.owner, carries.blockId, carries.content⟩
    obtain ⟨i, image, there, rest⟩ := carries.listed
    exact ⟨i, image, (same ..).mpr there, rest⟩

/-! ### Pushes -/

/-- After a request that is stored, its name has the new image, and the other names have theirs. -/
theorem imageAt_stored (table : TableOk n) (place : Place n r name i image) (string : cstr image'.filename = .ok name) :
    ImageAt { n with fileImages := Function.update n.fileImages i (some image') } name' j other ↔
      if name' = name then j = i ∧ other = image' else ImageAt n name' j other := by
  rw [imageAt_update]
  by_cases here : j = i
  · subst here
    rw [if_pos rfl, string]
    by_cases same : name' = name
    · subst same
      rw [if_pos rfl, eq_self, eq_self, and_true, true_and]
    · rw [if_neg same]
      refine iff_of_false (fun both => same (Except.ok.inj both.2).symm) fun there => ?_
      cases place with
      | old old =>
        obtain rfl := Option.some.inj (there.entry.symm.trans old.entry)
        exact same (Except.ok.inj (there.name.symm.trans old.name))
      | new _ _ empty _ _ _ => cases there.entry.symm.trans empty
  · rw [if_neg here]
    by_cases same : name' = name
    · subst same
      rw [if_pos rfl]
      exact iff_of_false (fun there => here (place.only table there)) fun both => here both.1
    · rw [if_neg same]

theorem answer_push (reached : Reaches h n) (nodes : Registered n) (string : cstr r.fileName = .ok name) (kind : r.reqType = 1)
    (low : 0 ≤ r.fileSize) (few : blocksFor r.fileSize ≤ MAX_FILE_BLK_COUNT)
    (room : ∀ i image, ImageAt n name i image → image.blocknum + blocksFor r.fileSize ≤ MAX_FILE_BLK_COUNT)
    (free : (∃ i image, ImageAt n name i image) ∨ ∃ i, n.fileImages i = none) (fileBlock : Int → BlockDesc) :
    ∃ i image image', answer n r fileBlock =
        .ok (some (.file image'), { n with fileImages := Function.update n.fileImages i (some image') }) ∧
      Place n r name i image ∧ cstr image'.filename = .ok name ∧ image'.blocknum = blocksFor r.fileSize ∧
      ∃ h', Reaches h' { n with fileImages := Function.update n.fileImages i (some image') } := by
  obtain ⟨table, registration⟩ := reached.holds
  have fine : FineRequest n r name :=
    ⟨low, string, fun i image there => ⟨fun _ => room i image there, fun other => by omega⟩, fun _ _ _ => few⟩
  obtain ⟨reply, n', run, handled⟩ := @answer_ok n r name fileBlock table nodes fine
  have step := Reaches.step (e := .request r fileBlock) reached ⟨registration.safeMode.mpr nodes, name, fine⟩ run
  cases handled with
  | status other => omega
  | ignored _ other => exact absurd kind other
  | absent other _ => omega
  | full _ absent taken =>
    rcases free with ⟨i, image, there⟩ | ⟨i, empty⟩
    · exact absurd there (absent i image)
    · have full := taken i
      rw [empty] at full
      cases full
  | found _ _ other _ => omega
  | stored i image image' _ place extended blocks =>
    exact ⟨i, image, image', run, place, extended.filename, blocks kind, _, step⟩

theorem Listed.connect {block : BlockDesc} (listed : Listed name k block) (content : Bytes DFS_BLOCK_SIZE) :
    connect { block with content := content } = .ok (addressOf block) := by
  obtain ⟨ip, ends⟩ := listed.ip
  rw [Dfs.connect, ends, ok_bind, addressOf, cstr_eq ends]

theorem pushBlocks_listed {remaining count : Nat}
    (listed : ∀ k, count ≤ k → k < count + remaining → Listed name k (image.entry k)) :
    pushBlocks image remaining count (file.drop (DFS_BLOCK_SIZE * count)) =
      .ok ((List.range' count remaining).map (blockMessage image file)) := by
  induction remaining generalizing count with
  | zero => rfl
  | succ remaining ih =>
    have here := listed count (Nat.le_refl _) (by omega)
    have rest := @ih (count + 1) fun k low high => listed k (by omega) (by omega)
    have left : (file.drop (DFS_BLOCK_SIZE * count)).drop DFS_BLOCK_SIZE = file.drop (DFS_BLOCK_SIZE * (count + 1)) := by
      rw [List.drop_drop]
      rfl
    rw [pushBlocks, block_ok image here.inside, ok_bind]
    dsimp only
    rw [here.connect, ok_bind, left, rest, ok_bind, List.range'_succ, List.map_cons]
    rfl

theorem Carries.push (listed : Listed name k (image.entry k)) (there : ImageAt n name i image)
    (below : (k : Int) < image.blocknum) (whole : DFS_BLOCK_SIZE * (k + 1) ≤ file.length) :
    Carries n (blockMessage image file k) ⟨name, k, piece file DFS_BLOCK_SIZE k⟩ where
  listed := ⟨i, image, there, below, rfl⟩
  opType := rfl
  owner := listed.owner
  blockId := listed.blockId
  content := sentContent_whole whole

/-- A place that is new is the first one behind the others. -/
theorem Place.names_push (place : Place n r name i image) (names : List (List UInt8))
    (places : ∀ j, (n.fileImages j).isSome ↔ j.val < names.length) (listed : name ∈ names ↔ ∃ i image, ImageAt n name i image)
    (j : Fin MAX_FILE_COUNT) : (Function.update n.fileImages i (some image') j).isSome ↔
      j.val < (if name ∈ names then names else names ++ [name]).length := by
  cases place with
  | old there =>
    rw [if_pos (listed.mpr ⟨i, image, there⟩), ← places j]
    by_cases here : j = i
    · rw [here, Function.update_self, there.entry]
      rfl
    · rw [Function.update_of_ne here]
  | new _ absent empty before _ _ =>
    have new : name ∉ names := fun member => by
      obtain ⟨j, other, there⟩ := listed.mp member
      exact absent j other there
    have last : i.val = names.length := by
      have behind : ¬ i.val < names.length := by
        rw [← places i, empty]
        exact Bool.false_ne_true
      by_contra other
      have taken := before ⟨names.length, by omega⟩ (show names.length < i.val by omega)
      exact absurd ((places _).mp taken) (Nat.lt_irrefl _)
    rw [if_neg new, List.length_append, List.length_singleton]
    by_cases here : j = i
    · rw [here, Function.update_self]
      exact iff_of_true rfl (by omega)
    · have apart : j.val ≠ i.val := fun same => here (Fin.ext same)
      rw [Function.update_of_ne here, places j]
      omega

theorem blocksFor_whole (whole : file.length % DFS_BLOCK_SIZE = 0) :
    blocksFor file.length = (file.length / DFS_BLOCK_SIZE : Nat) := by
  show ((file.length : Int) + 1023) / 1024 = (file.length / 1024 : Nat)
  have rest : file.length % 1024 = 0 := whole
  omega

theorem Carries.kept (carries : Carries n m w)
    (kept : ∀ i image, ImageAt n w.name i image → (w.block : Int) < image.blocknum → ∃ j other, ImageAt n' w.name j other ∧
      (w.block : Int) < other.blocknum ∧ other.entry w.block = image.entry w.block) : Carries n' m w := by
  obtain ⟨⟨i, image, there, below, address⟩, opType, owner, blockId, content⟩ := carries
  obtain ⟨j, other, there', below', same⟩ := kept i image there below
  exact ⟨⟨j, other, there', below', address.trans (congrArg addressOf same.symm)⟩, opType, owner, blockId, content⟩

/-- The state after the namenode has answered a push: nothing is known of the blocks of the file. -/
theorem Catalogued.pushed (catalogued : Catalogued s cat) (place : Place s.namenode r name i image)
    (string : cstr image'.filename = .ok name) (whole : file.length % DFS_BLOCK_SIZE = 0)
    (blocknum : image'.blocknum = (file.length / DFS_BLOCK_SIZE : Nat)) (quiet : ∀ w ∈ cat.pending, w.name ≠ name)
    (reached : Reaches h { s.namenode with fileImages := Function.update s.namenode.fileImages i (some image') }) :
    Catalogued (s.sent ((List.range (file.length / DFS_BLOCK_SIZE)).map (blockMessage image' file))
      { s.namenode with fileImages := Function.update s.namenode.fileImages i (some image') }) (cat.push name file) := by
  obtain ⟨h₀, before⟩ := catalogued.reached
  have images : ∀ {name' j other}, ImageAt
      { s.namenode with fileImages := Function.update s.namenode.fileImages i (some image') } name' j other ↔
        if name' = name then j = i ∧ other = image' else ImageAt s.namenode name' j other :=
    imageAt_stored before.holds.1 place string
  have here : ImageAt { s.namenode with fileImages := Function.update s.namenode.fileImages i (some image') } name i image' := by
    rw [images, if_pos rfl]
    exact ⟨rfl, rfl⟩
  constructor
  case reached => exact ⟨h, reached⟩
  case nodes => exact catalogued.nodes
  case places => exact place.names_push cat.names catalogued.places (catalogued.names name)
  case names =>
    intro name'
    rw [Cluster.sent, Catalogue.push]
    dsimp only
    by_cases same : name' = name
    · subst same
      refine iff_of_true ?_ ⟨i, image', here⟩
      split
      · assumption
      · exact List.mem_append_right _ (List.mem_singleton_self _)
    · simp only [images, if_neg same]
      rw [← catalogued.names name']
      split
      · rfl
      · rw [List.mem_append, List.mem_singleton]
        exact or_iff_left same
  case blocks =>
    intro name' j other there
    rw [Cluster.sent] at there
    rw [images] at there
    rw [Catalogue.push]
    dsimp only
    by_cases same : name' = name
    · subst same
      rw [if_pos rfl] at there
      obtain ⟨rfl, rfl⟩ := there
      rw [Function.update_self]
      refine ⟨by rw [blocknum, List.length_replicate], fun k bytes known => ?_⟩
      rw [List.getElem?_replicate] at known
      split at known
      · cases Option.some.inj known
      · cases known
    · rw [if_neg same] at there
      rw [Function.update_of_ne same]
      exact catalogued.blocks name' j other there
  case pending =>
    rw [Cluster.sent, Catalogue.push]
    dsimp only
    refine List.rel_append ?_ ?_
    · refine (List.forall₂_iff_zip.mpr ⟨catalogued.pending.length_eq, fun {m w} paired => ?_⟩)
      have other := quiet w (List.of_mem_zip paired).2
      refine (List.forall₂_zip catalogued.pending paired).kept fun j image₀ there below => ⟨j, image₀, ?_, below, rfl⟩
      rw [images, if_neg other]
      exact there
    · rw [List.forall₂_map_left_iff, List.forall₂_map_right_iff, List.forall₂_same]
      intro k member
      have few := List.mem_range.mp member
      have below : (k : Int) < image'.blocknum := by omega
      have inside : DFS_BLOCK_SIZE * (k + 1) ≤ file.length := by
        have rest : file.length % 1024 = 0 := whole
        have few : k < file.length / 1024 := few
        show 1024 * (k + 1) ≤ file.length
        omega
      exact .push (reached.listed here below) here below inside

theorem Catalogued.push (catalogued : Catalogued s cat) (fileBlock : Int → BlockDesc) (request : ClientReq) {localPath : CString}
    (suits : (Job.push fileBlock request localPath file).Suits cat) : ∃ messages n',
      pushFile s.namenode fileBlock request localPath file = .ok (messages, n') ∧
      Catalogued (s.sent messages n') (cat.push localPath.bytes file) := by
  obtain ⟨nodes, fits, whole, room, free, quiet⟩ := suits
  obtain ⟨h, reached⟩ := catalogued.reached
  have many : file.length / 1024 ≤ 100 := show file.length / DFS_BLOCK_SIZE ≤ MAX_FILE_BLK_COUNT by omega
  have rest : file.length % 1024 = 0 := whole
  have size : toInt32 (file.length : Int) = file.length := toInt32_of_range (by omega) (by omega)
  have string := cstr_strcpy request.fileName localPath.nonzero (by omega)
  have count := blocksFor_whole whole
  have few : blocksFor file.length ≤ MAX_FILE_BLK_COUNT := by omega
  obtain ⟨i, image, image', run, place, filename, blocknum, h', reached'⟩ := answer_push
    (r := ⟨request.fileName.patch 0 (localPath.bytes ++ [0]), file.length, 1⟩) reached (catalogued.registered nodes) string rfl
    (Int.natCast_nonneg _) few
    (fun i image there => by
      have known := (catalogued.blocks _ i image there).1
      dsimp only
      omega)
    (free.imp (catalogued.names _).mp fun few => ⟨⟨cat.names.length, few⟩, by
      have empty := (catalogued.places ⟨cat.names.length, few⟩).not.mpr (Nat.lt_irrefl _)
      exact Option.not_isSome_iff_eq_none.mp empty⟩)
    fileBlock
  have entry : ImageAt { s.namenode with fileImages := Function.update s.namenode.fileImages i (some image') } localPath.bytes i
      image' := ⟨Function.update_self .., filename⟩
  have sent := @pushBlocks_listed localPath.bytes file image' (file.length / DFS_BLOCK_SIZE) 0 fun k _ high =>
    reached'.listed entry (by dsimp only at blocknum; omega)
  rw [Nat.mul_zero, List.drop_zero, ← List.range_eq_range'] at sent
  dsimp only at blocknum
  refine ⟨_, _, ?_, catalogued.pushed place filename whole (by omega) quiet reached'⟩
  rw [pushFile, strcpy_ok _ (by omega), ok_bind, size, run, ok_bind]
  dsimp only [queryResult, Option.bind_some, receive]
  rw [ok_bind, blocknum, count, Int.toNat_natCast, sent, ok_bind]

/-! ### Modifications -/

theorem Handled.filename (handled : Handled n r name (some (.file image)) n') : cstr image.filename = .ok name := by
  cases handled with
  | found _ _ _ there => exact there.name
  | stored _ _ _ _ _ extended _ => exact extended.filename

/-- New entries are behind the blocks of the file, which stay. -/
theorem answer_modification (reached : Reaches h n) {filename : CString} {size : Nat} (there : ImageAt n filename.bytes i image)
    (few : blocksFor size ≤ MAX_FILE_BLK_COUNT) (fileBlock : Int → BlockDesc) :
    ∃ image', answer n (modifyRequest filename size) fileBlock =
        .ok (some (.file image'), { n with fileImages := Function.update n.fileImages i (some image') }) ∧
      cstr image'.filename = .ok filename.bytes ∧ image'.blocknum = image.blocknum ∧
      (∀ k : Nat, (k : Int) < image.blocknum → image'.entry k = image.entry k) ∧
      ∃ h', Reaches h' { n with fileImages := Function.update n.fileImages i (some image') } := by
  obtain ⟨table, registration⟩ := reached.holds
  have string := cstr_modifyRequest there size
  have low : 0 ≤ (modifyRequest filename size).fileSize := Int.natCast_nonneg _
  have nodes := reached.registered there.entry
  by_cases enough : blocksFor size ≤ image.blocknum
  · have same : Function.update n.fileImages i (some image) = n.fileImages := by
      rw [← there.entry, Function.update_eq_self]
    refine ⟨image, ?_, there.name, rfl, fun _ _ => rfl, h, ?_⟩
    · rw [answer_modify, same]
      exact getFileUpdatePoint_enough table there string ((blockCount_blocksFor low few).1.trans_le enough)
    · rw [same]
      exact reached
  · obtain ⟨image', blocknum, run, kept, -⟩ := getFileUpdatePoint_more table nodes there string low few (not_le.mp enough)
    have answered := (answer_modify n size fileBlock).trans run
    have fine : FineRequest n (modifyRequest filename size) filename.bytes :=
      ⟨low, string, fun _ _ _ => ⟨fun other => absurd other (show ¬ (3 : Int) = 1 by decide), fun _ => few⟩, fun _ _ _ => few⟩
    have step := Reaches.step (e := .request (modifyRequest filename size) fileBlock) reached
      ⟨registration.safeMode.mpr nodes, _, fine⟩ answered
    refine ⟨image', answered, ?_, blocknum, kept, _, step⟩
    cases reached.happened (e := .request (modifyRequest filename size) fileBlock)
      ⟨registration.safeMode.mpr nodes, _, fine⟩ answered with
    | request name' string' handled =>
      obtain rfl := Except.ok.inj (string'.symm.trans string)
      exact handled.filename

theorem Carries.replace {src : List UInt8} (listed : Listed name k (image.entry k)) (there : ImageAt n name i image)
    (below : (k : Int) < image.blocknum) (whole : DFS_BLOCK_SIZE ≤ src.length) :
    Carries n (replaceBlock image k src) ⟨name, k, src.take DFS_BLOCK_SIZE⟩ where
  listed := ⟨i, image, there, below, rfl⟩
  opType := rfl
  owner := listed.owner
  blockId := listed.blockId
  content := Bytes.toList_patch _ (by rw [List.length_take]; omega)

/-- The state after the namenode has answered a modification. -/
theorem Catalogued.modified (catalogued : Catalogued s cat) (there : ImageAt s.namenode name i image)
    (string : cstr image'.filename = .ok name) (blocknum : image'.blocknum = image.blocknum)
    (kept : ∀ k : Nat, (k : Int) < image.blocknum → image'.entry k = image.entry k) {start stop : Nat}
    (below : ((start / DFS_BLOCK_SIZE : Nat) : Int) < image.blocknum)
    (whole : start + DFS_BLOCK_SIZE * Catalogue.touched start stop ≤ file.length)
    (reached : Reaches h { s.namenode with fileImages := Function.update s.namenode.fileImages i (some image') }) :
    Catalogued (s.sent (((List.range (Catalogue.touched start stop)).map fun j => (file.drop start).drop (DFS_BLOCK_SIZE * j)).map
        (replaceBlock image' (start / DFS_BLOCK_SIZE)))
      { s.namenode with fileImages := Function.update s.namenode.fileImages i (some image') })
      (cat.modify name file start stop) := by
  obtain ⟨h₀, before⟩ := catalogued.reached
  have table := before.holds.1
  have place : Place s.namenode ⟨.zero, 0, 3⟩ name i image := .old there
  have images : ∀ {name' j other}, ImageAt
      { s.namenode with fileImages := Function.update s.namenode.fileImages i (some image') } name' j other ↔
        if name' = name then j = i ∧ other = image' else ImageAt s.namenode name' j other :=
    imageAt_stored table place string
  have here : ImageAt { s.namenode with fileImages := Function.update s.namenode.fileImages i (some image') } name i image' := by
    rw [images, if_pos rfl]
    exact ⟨rfl, rfl⟩
  have named : name ∈ cat.names := (catalogued.names name).mpr ⟨i, image, there⟩
  have only : ∀ {j other}, ImageAt s.namenode name j other → other = image := by
    intro j other there'
    obtain rfl := table.distinct j i other image name there' there
    exact Option.some.inj (there'.entry.symm.trans there.entry)
  constructor
  case reached => exact ⟨h, reached⟩
  case nodes => exact catalogued.nodes
  case places =>
    intro j
    have placed : (Function.update s.namenode.fileImages i (some image') j).isSome ↔ _ :=
      place.names_push cat.names catalogued.places (catalogued.names name) j
    rw [if_pos named] at placed
    exact placed
  case names =>
    intro name'
    rw [Cluster.sent, Catalogue.modify]
    dsimp only
    by_cases same : name' = name
    · subst same
      exact iff_of_true named ⟨i, image', here⟩
    · simp only [images, if_neg same]
      exact catalogued.names name'
  case blocks =>
    intro name' j other there'
    rw [Cluster.sent] at there' ⊢
    rw [images] at there'
    rw [Catalogue.modify]
    dsimp only at there' ⊢
    by_cases same : name' = name
    · subst same
      rw [if_pos rfl] at there'
      obtain ⟨rfl, rfl⟩ := there'
      obtain ⟨count, known⟩ := catalogued.blocks name' j image there
      refine ⟨blocknum.trans count, fun k bytes block => ?_⟩
      obtain ⟨inside, -⟩ := List.getElem?_eq_some_iff.mp block
      rw [Stores, kept k (by omega)]
      exact known k bytes block
    · rw [if_neg same] at there'
      exact catalogued.blocks name' j other there'
  case pending =>
    rw [Cluster.sent, Catalogue.modify]
    dsimp only
    refine List.rel_append ?_ ?_
    · refine catalogued.pending.imp fun m w carries => carries.kept fun j image₀ there' below' => ?_
      by_cases same : w.name = name
      · rw [same] at there'
        obtain rfl := only there'
        exact ⟨i, image', same.symm ▸ here, by omega, kept _ below'⟩
      · refine ⟨j, image₀, ?_, below', rfl⟩
        rw [images, if_neg same]
        exact there'
    · rw [List.forall₂_map_left_iff, List.forall₂_map_left_iff, List.forall₂_map_right_iff, List.forall₂_same]
      intro j member
      have few := List.mem_range.mp member
      have inside : ((start / DFS_BLOCK_SIZE : Nat) : Int) < image'.blocknum := by omega
      refine .replace (reached.listed here inside) here inside ?_
      rw [List.length_drop, List.length_drop]
      have rounds := Nat.mul_le_mul_left DFS_BLOCK_SIZE few
      rw [Nat.mul_succ] at rounds
      omega

theorem Catalogued.modify (catalogued : Catalogued s cat) (fileBlock : Int → BlockDesc) {filename : CString}
    {fileSize startAddr endAddr : Int} (suits : (Job.modify fileBlock filename file fileSize startAddr endAddr).Suits cat) :
    ∃ messages n', modifyFile s.namenode fileBlock filename file fileSize startAddr endAddr = .ok (messages, n') ∧
      Catalogued (s.sent messages n') (cat.modify filename.bytes file startAddr.toNat endAddr.toNat) := by
  obtain ⟨named, low, few, first, ordered, below, whole⟩ := suits
  obtain ⟨size, rfl⟩ := Int.eq_ofNat_of_zero_le low
  obtain ⟨start, rfl⟩ := Int.eq_ofNat_of_zero_le first
  obtain ⟨stop, rfl⟩ := Int.eq_ofNat_of_zero_le (first.trans ordered)
  rw [Int.toNat_natCast] at below whole ⊢
  rw [Int.toNat_natCast] at whole ⊢
  obtain ⟨h, reached⟩ := catalogued.reached
  obtain ⟨i, image, there⟩ := (catalogued.names _).mp named
  obtain ⟨count, -⟩ := catalogued.blocks _ i image there
  obtain ⟨image', run, string, blocknum, kept, h', reached'⟩ := answer_modification reached there few fileBlock
  have inside : ((start / DFS_BLOCK_SIZE : Nat) : Int) < image.blocknum := by omega
  have after := catalogued.modified there string blocknum kept inside whole reached'
  have listed := reached'.listed (k := start / DFS_BLOCK_SIZE) ⟨Function.update_self .., string⟩ (by omega)
  obtain ⟨ip, address⟩ := listed.ip
  refine ⟨_, _, ?_, after⟩
  rw [modifyFile_eq there run (by omega), modifyBlocks_ok listed.inside address, ok_bind]
  rfl

/-! ### Requests that are handled -/

section
variable {α β : Type} {R : α → β → Prop} {as : List α} {bs : List β}

theorem forall₂_getElem? (related : List.Forall₂ R as bs) (place : Nat) :
    as[place]? = none ∧ bs[place]? = none ∨ ∃ a b, as[place]? = some a ∧ bs[place]? = some b ∧ R a b := by
  induction related generalizing place with
  | nil => exact .inl ⟨rfl, rfl⟩
  | cons first _ ih =>
    cases place with
    | zero => exact .inr ⟨_, _, rfl, rfl, first⟩
    | succ place => exact ih place

theorem forall₂_eraseIdx (related : List.Forall₂ R as bs) (place : Nat) :
    List.Forall₂ R (as.eraseIdx place) (bs.eraseIdx place) := by
  induction related generalizing place with
  | nil => exact .nil
  | cons first rest ih =>
    cases place with
    | zero => exact rest
    | succ place => exact .cons first (ih place)

end

/-- The write of another block. -/
theorem Stores.kept {hosts' : Hosts} {a : Address} {content : List UInt8} {k' : Nat} (stores : Stores hosts image name k bytes)
    (directories : ∀ a, (hosts' a).workingDirectory = (hosts a).workingDirectory)
    (files : ∀ b path, (hosts' b).files path =
      if b = a ∧ path = blockPath (hosts b) name' k' then some content else (hosts b).files path)
    (apart : ¬ (name = name' ∧ k = k')) : Stores hosts' image name k bytes := by
  rw [Stores, blockPath, directories, ← blockPath, files, if_neg fun both => apart (blockPath_inj both.2)]
  exact stores

theorem Catalogued.handle (catalogued : Catalogued s cat) (place : Nat) (buffer : Bytes DFS_BLOCK_SIZE) :
    ∃ s', (Job.deliver place buffer).run s = .ok ([], s') ∧ Catalogued s' (cat.handle place) := by
  rcases forall₂_getElem? catalogued.pending place with ⟨none, none'⟩ | ⟨m, w, found, found', carries⟩
  · refine ⟨s, ?_, ?_⟩
    · rw [Job.run, none]
    · rw [Catalogue.handle, none']
      exact catalogued
  · obtain ⟨h, reached⟩ := catalogued.reached
    obtain ⟨⟨i, image, there, below, address⟩, opType, owner, blockId, content⟩ := carries
    obtain ⟨a, kind, block⟩ := m
    obtain rfl : kind = 1 := opType
    obtain rfl : a = addressOf (image.entry w.block) := address
    have small := (reached.listed there below).inside
    obtain ⟨hosts', run, directories, files⟩ := @deliver_write w.name w.block block small owner blockId
      (addressOf (image.entry w.block)) buffer s.hosts
    rw [content] at files
    refine ⟨{ s with hosts := hosts', inFlight := s.inFlight.eraseIdx place }, ?_, ?_⟩
    · rw [Job.run, found]
      dsimp only
      rw [run, ok_bind]
    · rw [Catalogue.handle, found']
      constructor
      case reached => exact ⟨h, reached⟩
      case nodes => exact catalogued.nodes
      case places => exact catalogued.places
      case names => exact catalogued.names
      case pending => exact forall₂_eraseIdx catalogued.pending place
      case blocks =>
        intro name j other there'
        dsimp only at there' ⊢
        obtain ⟨count, known⟩ := catalogued.blocks name j other there'
        by_cases same : name = w.name
        · subst same
          rw [Function.update_self, List.length_set]
          refine ⟨count, fun k bytes block => ?_⟩
          rw [List.getElem?_set] at block
          by_cases here : w.block = k
          · subst here
            rw [if_pos rfl] at block
            split at block
            · obtain rfl := Option.some.inj (Option.some.inj block)
              obtain rfl := reached.holds.1.distinct j i other image _ there' there
              obtain rfl := Option.some.inj (there'.entry.symm.trans there.entry)
              refine ⟨by rw [← content, Bytes.length_toList], ?_⟩
              rw [Stores, blockPath, directories, ← blockPath, files, if_pos ⟨rfl, rfl⟩]
            · cases block
          · rw [if_neg here] at block
            obtain ⟨length, stores⟩ := known k bytes block
            exact ⟨length, stores.kept directories files fun both => here both.2.symm⟩
        · rw [Function.update_of_ne same]
          refine ⟨count, fun k bytes block => ?_⟩
          obtain ⟨length, stores⟩ := known k bytes block
          exact ⟨length, stores.kept directories files fun both => same both.1⟩

/-! ### Pulls -/

theorem readBlock_stored (listed : Listed name k (image.entry k)) (stores : Stores hosts image name k bytes)
    (whole : bytes.length = DFS_BLOCK_SIZE) (ended : scan bytes ++ [0] = bytes) (buffer : Bytes DFS_BLOCK_SIZE) : ∃ block,
      serve (hosts (addressOf (image.entry k))) ⟨0, image.entry k⟩ buffer =
        .ok (some block, hosts (addressOf (image.entry k))) ∧ cstr block.content = .ok (scan bytes) := by
  have path := getBlockFilePath_ok (hosts (addressOf (image.entry k))) name listed.inside
  have fits := cstr_length listed.owner
  have length := congrArg List.length ended
  rw [List.length_append, List.length_singleton, whole] at length
  have string : cstr (buffer.patch 0 bytes) = .ok (scan bytes) := by
    have zero : 0 ∈ bytes := by
      rw [← ended]
      exact List.mem_append_right _ (List.mem_singleton_self _)
    have same : (buffer.patch 0 bytes).toList = bytes := Bytes.toList_patch _ whole
    rw [cstr, same, if_pos zero]
  have owner := strcpy_ok BlockDesc.zero.ownerName (s := name) fits
  have content := strcpy_ok BlockDesc.zero.content (s := scan bytes) (by omega)
  have back := cstr_strcpy BlockDesc.zero.content (s := scan bytes) (fun _ => scan_nonzero) (by omega)
  refine ⟨⟨BlockDesc.zero.ownerName.patch 0 (name ++ [0]), (hosts (addressOf (image.entry k))).datanodeId, k, .zero, 0,
    BlockDesc.zero.content.patch 0 (scan bytes ++ [0])⟩, ?_, back⟩
  rw [serve, if_pos rfl, readBlock]
  dsimp only
  rw [listed.owner, ok_bind, listed.blockId, extReadBlock, path, ok_bind, stores]
  dsimp only
  rw [ok_bind, owner, ok_bind, List.take_of_length_le whole.le, string, ok_bind, content, ok_bind, ok_bind]
  rfl

theorem pullBlocks_stored {blocks : Nat → List UInt8} {remaining count : Nat} (buffers : Nat → Bytes DFS_BLOCK_SIZE)
    (listed : ∀ k, count ≤ k → k < count + remaining → Listed name k (image.entry k))
    (known : ∀ k, count ≤ k → k < count + remaining → (blocks k).length = DFS_BLOCK_SIZE ∧ Stores hosts image name k (blocks k) ∧
      scan (blocks k) ++ [0] = blocks k) : ∃ contents, pullBlocks hosts buffers image remaining count = .ok contents ∧
        contents.map Bytes.toList = (List.range' count remaining).map blocks := by
  induction remaining generalizing count with
  | zero => exact ⟨[], rfl, rfl⟩
  | succ remaining ih =>
    have here := listed count (Nat.le_refl _) (by omega)
    obtain ⟨whole, stores, ended⟩ := known count (Nat.le_refl _) (by omega)
    obtain ⟨contents, rest, same⟩ := @ih (count + 1) (fun k low high => listed k (by omega) (by omega)) fun k low high =>
      known k (by omega) (by omega)
    obtain ⟨block, served, string⟩ := readBlock_stored here stores whole ended (buffers count)
    have length := congrArg List.length ended
    rw [List.length_append, List.length_singleton, whole] at length
    refine ⟨(image.entry count).content.patch 0 (blocks count) :: contents, ?_, ?_⟩
    · rw [pullBlocks, block_ok image here.inside, ok_bind, here.connect (image.entry count).content, ok_bind, served, ok_bind]
      dsimp only [receive]
      rw [ok_bind, string, ok_bind, strcpy_ok _ (by omega), ok_bind, rest, ok_bind, ended]
    · rw [List.map_cons, same, Bytes.toList_patch _ whole, List.range'_succ, List.map_cons]

theorem Catalogued.pull (catalogued : Catalogued s cat) (fileBlock : Int → BlockDesc) (request : ClientReq) {filename : CString}
    (buffers : Nat → Bytes DFS_BLOCK_SIZE) (suits : (Job.pull fileBlock request filename buffers).Suits cat) :
    pullFile s.namenode s.hosts buffers fileBlock request filename = .ok (cat.file filename.bytes) := by
  obtain ⟨named, ended⟩ := suits
  obtain ⟨h, reached⟩ := catalogued.reached
  obtain ⟨i, image, there⟩ := (catalogued.names _).mp named
  obtain ⟨count, known⟩ := catalogued.blocks _ i image there
  have fits := cstr_length there.name
  have string := cstr_strcpy request.fileName filename.nonzero fits
  have located := getFileLocation_at (r := ⟨request.fileName.patch 0 (filename.bytes ++ [0]), request.fileSize, 0⟩)
    reached.holds.1 there string
  obtain ⟨contents, run, same⟩ := @pullBlocks_stored filename.bytes image s.hosts
    (fun k => ((cat.blocks filename.bytes)[k]?.bind id).getD []) (cat.blocks filename.bytes).length 0 buffers
    (fun k _ high => reached.listed there (by omega)) fun k _ high => by
      have block := List.getElem?_eq_getElem (show k < (cat.blocks filename.bytes).length by omega)
      obtain ⟨bytes, held, end'⟩ := ended _ (List.mem_of_getElem? block)
      rw [Option.mem_def.mp held] at block
      rw [block]
      exact ⟨(known k bytes block).1, (known k bytes block).2, end'⟩
  rw [pullFile, strcpy_ok _ fits, ok_bind, answer, if_pos rfl, located, ok_bind]
  dsimp only [queryResult, Option.bind_some, receive]
  rw [ok_bind, count, Int.toNat_natCast, run, ok_bind, List.flatMap_def, same, Catalogue.file, List.flatMap_def]
  refine congrArg (fun blocks => Except.ok (List.flatten blocks)) (List.ext_getElem? fun k => ?_)
  rw [List.getElem?_map, List.getElem?_map, ← List.range_eq_range']
  by_cases inside : k < (cat.blocks filename.bytes).length
  · rw [List.getElem?_range inside, List.getElem?_eq_getElem inside, Option.map_some, Option.map_some,
      List.getElem?_eq_getElem inside]
    rfl
  · rw [List.getElem?_eq_none (not_lt.mp inside), List.getElem?_eq_none (by rw [List.length_range]; omega)]
    rfl

/-! ### Runs -/

theorem Job.run_catalogued {job : Job} (catalogued : Catalogued s cat) (suits : job.Suits cat) : ∃ results s' cat',
    job.run s = .ok (results, s') ∧ job.onCatalogue cat = .ok (results, cat') ∧ Catalogued s' cat' := by
  cases job with
  | heartbeat datanodeId datanodeListenPort ip =>
    obtain ⟨n', run, after⟩ := catalogued.heartbeat suits datanodeListenPort ip
    exact ⟨_, _, _, by rw [Job.run, run, ok_bind], rfl, after⟩
  | push fileBlock request localPath file =>
    obtain ⟨messages, n', run, after⟩ := catalogued.push fileBlock request suits
    exact ⟨_, _, _, by rw [Job.run, run, ok_bind], rfl, after⟩
  | modify fileBlock filename file fileSize startAddr endAddr =>
    obtain ⟨messages, n', run, after⟩ := catalogued.modify fileBlock suits
    exact ⟨_, _, _, by rw [Job.run, run, ok_bind], rfl, after⟩
  | pull fileBlock request filename buffers =>
    exact ⟨_, _, _, by rw [Job.run, catalogued.pull fileBlock request buffers suits, ok_bind], rfl, catalogued⟩
  | info fileBlock request =>
    obtain ⟨h, reached⟩ := catalogued.reached
    have asked : getSystemInfo s.namenode fileBlock request = .ok (cat.nodes.card, s.namenode) := by
      rw [← catalogued.nodes, ← reached.holds.2.dncnt]
      rfl
    exact ⟨_, _, _, by rw [Job.run, asked, ok_bind], rfl, catalogued⟩
  | deliver place buffer =>
    obtain ⟨s', run, after⟩ := catalogued.handle place buffer
    exact ⟨_, _, _, run, rfl, after⟩

theorem catalogued_start (hosts : Hosts) : Catalogued ⟨.initial, hosts, []⟩ .start where
  reached := ⟨[], .initial⟩
  nodes := rfl
  places _ := iff_of_false Bool.false_ne_true (Nat.not_lt_zero _)
  names _ := by
    refine iff_of_false List.not_mem_nil ?_
    rintro ⟨i, image, there⟩
    cases there.entry
  blocks _ _ _ there := by cases there.entry
  pending := .nil

/-- Whatever the kernel makes of the messages and in whatever order the datanodes handle the requests in flight, every run of
the programs gives the answers that the catalogue gives. -/
theorem catalogue_answers {jobs : List (Links × Job)} {hosts : Hosts} (ids : ∀ a, IsInt32 (hosts a).datanodeId)
    (sized : ∀ j ∈ jobs, j.2.Sized)
    (meets : Meets (stateAfter fun j : Links × Job => j.2.onCatalogue) (fun j cat => j.2.Suits cat) jobs .start) : ∃ results,
      answers (fun j => Wire.run j.1 j.2) jobs (Cluster.packed ⟨.initial, hosts, []⟩) = .ok results ∧
      answers (fun j => j.2.onCatalogue) jobs .start = .ok results := by
  have start : Cluster.Sized ⟨.initial, hosts, []⟩ := ⟨sized_initial, ids, fun _ member => by cases member⟩
  have bytewise : answers (fun j => Wire.run j.1 j.2) jobs (Cluster.packed ⟨.initial, hosts, []⟩) =
      answers (fun j => j.2.run) jobs ⟨.initial, hosts, []⟩ :=
    answers_image Cluster.packed Cluster.Sized (fun j _ sized fits => Job.run_bytes j.1 sized fits)
      (fun _ _ _ _ sized fits run => Job.run_sized sized fits run) start sized
  have step : ∀ (j : Links × Job) s cat, Catalogued s cat → j.2.Suits cat → ∃ results s' cat',
      j.2.run s = .ok (results, s') ∧ j.2.onCatalogue cat = .ok (results, cat') ∧ Catalogued s' cat' :=
    fun _ _ _ catalogued suits => Job.run_catalogued catalogued suits
  obtain ⟨results, run, run'⟩ := answers_simulate Catalogued step (catalogued_start hosts) meets
  exact ⟨results, bytewise.trans run, run'⟩

instance (job : Job) (cat : Catalogue) : Decidable (job.Suits cat) :=
  match job with
  | .heartbeat .. => inferInstanceAs (Decidable (1 ≤ _))
  | .push .. => inferInstanceAs (Decidable (_ ∧ _ ∧ _ ∧ _ ∧ _ ∧ _))
  | .modify .. => inferInstanceAs (Decidable (_ ∧ _ ∧ _ ∧ _ ∧ _ ∧ _ ∧ _))
  | .pull _ _ filename _ => inferInstanceAs (Decidable (_ ∧ ∀ block ∈ cat.blocks filename.bytes, ∃ bytes ∈ block, _))
  | .info .. => inferInstanceAs (Decidable cat.nodes.Nonempty)
  | .deliver .. => inferInstanceAs (Decidable True)

def filledBlock (c : UInt8) : List UInt8 := List.replicate 1023 c ++ [0]

/-- The second block arrives before the first one, and is replaced. -/
def rewritten : List (Links × Job) := List.map (fun j => (bytewise, j))
  [.heartbeat 1 8000 loopback, .heartbeat 2 8001 loopback,
    .push (fun _ => .zero) ⟨.zero, 0, 0⟩ fileName (filledBlock 1 ++ filledBlock 2), .deliver 1 .zero,
    .modify (fun _ => .zero) fileName (filledBlock 3 ++ filledBlock 4) 2048 1024 1500, .deliver 0 .zero, .deliver 0 .zero,
    .pull (fun _ => .zero) ⟨.zero, 0, 0⟩ fileName fun _ => .zero, .info (fun _ => .zero) ⟨.zero, 0, 0⟩]

theorem rewritten_sized : ∀ j ∈ rewritten, j.2.Sized := by
  intro j member
  obtain ⟨job, listed, rfl⟩ := List.mem_map.mp member
  simp only [List.mem_cons, List.not_mem_nil, or_false] at listed
  have small : ∀ {i : Nat}, i < 4096 → IsInt32 i := fun few => isInt32_small (Int.natCast_nonneg _) (by omega)
  rcases listed with rfl | rfl | rfl | rfl | rfl | rfl | rfl | rfl | rfl
  · exact isInt32_one
  · exact @small 2 (by decide)
  · trivial
  · trivial
  · exact @small 2048 (by decide)
  · trivial
  · trivial
  · exact isInt32_zero
  · exact isInt32_zero

theorem rewritten_answers : answers (fun j => Wire.run j.1 j.2) rewritten (Cluster.packed ⟨.initial, emptyHosts, []⟩) =
    .ok [.file (filledBlock 1 ++ filledBlock 4), .system 2] := by
  obtain ⟨results, run, expected⟩ := @catalogue_answers rewritten emptyHosts (fun _ => isInt32_one) rewritten_sized
    (by decide +kernel)
  have listed : answers (fun j : Links × Job => j.2.onCatalogue) rewritten .start =
    .ok [.file (filledBlock 1 ++ filledBlock 4), .system 2] := by decide +kernel
  rw [run, ← expected, listed]

end StorageStack.Dfs
