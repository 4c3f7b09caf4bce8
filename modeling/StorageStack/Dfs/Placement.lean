import StorageStack.Dfs.Model

/-!
# Placing the blocks of a file

A write request for a new name gets the first free place of the table and datanodes in turn, as long as one
is registered. What a block is placed on is said by `Placed`; what its other bytes hold is left to the local
it was built in.
-/

namespace StorageStack.Dfs
open Lib CString

variable {n : Namenode} {name : List UInt8} {fileBlock : Int → BlockDesc} {image image' : FileDesc}

theorem cstr_strcpy {k : Nat} (dst : Bytes k) {s : List UInt8} (nonzero : ∀ c ∈ s, c ≠ 0) (room : s.length < k) :
    cstr (dst.patch 0 (s ++ [0])) = .ok s := by
  have whole := toList_strcpy dst room
  have ends : 0 ∈ (dst.patch 0 (s ++ [0])).toList := by
    rw [whole]
    exact List.mem_append_right _ (List.mem_cons_self ..)
  rw [cstr, if_pos ends, whole, scan_append_zero nonzero]

/-! ### The table of files -/

/-- The image of the name, if place `i` has it. -/
def entryFor (n : Namenode) (name : List UInt8) (i : Fin MAX_FILE_COUNT) : Option (Fin MAX_FILE_COUNT × FileDesc) :=
  (n.fileImages i).bind fun image => if scan image.filename.toList = name then some (i, image) else none

def Named (n : Namenode) : Prop := ∀ i image, n.fileImages i = some image → 0 ∈ image.filename.toList

theorem findImage_ok (named : Named n) (nonzero : ∀ c ∈ name, c ≠ 0) (places : List (Fin MAX_FILE_COUNT)) :
    findImage n name places = .ok (places.findSome? (entryFor n name)) := by
  induction places with
  | nil => rfl
  | cons i places ih =>
    rw [findImage, List.findSome?_cons]
    cases entry : n.fileImages i with
    | none =>
      rw [entryFor, entry]
      exact ih
    | some image =>
      rw [entryFor, entry]
      dsimp only
      rw [strcmpEq_ok (named i image entry) nonzero, ok_bind, Option.bind_some]
      by_cases same : scan image.filename.toList = name
      · simp [same]
      · simpa [same] using ih

theorem entryFor_eq_none (absent : ∀ i image, n.fileImages i = some image → scan image.filename.toList ≠ name)
    (i : Fin MAX_FILE_COUNT) : entryFor n name i = none := by
  rw [entryFor]
  cases entry : n.fileImages i with
  | none => rfl
  | some image => exact if_neg (absent i image entry)

theorem findImage_absent (named : Named n) (nonzero : ∀ c ∈ name, c ≠ 0)
    (absent : ∀ i image, n.fileImages i = some image → scan image.filename.toList ≠ name) (places : List (Fin MAX_FILE_COUNT)) :
    findImage n name places = .ok none := by
  rw [findImage_ok named nonzero, List.findSome?_eq_none_iff.mpr fun i _ => entryFor_eq_none absent i]

theorem findImage_present (named : Named n) (nonzero : ∀ c ∈ name, c ≠ 0) {i : Fin MAX_FILE_COUNT}
    (entry : n.fileImages i = some image)
    (here : scan image.filename.toList = name)
    (others : ∀ j other, j ≠ i → n.fileImages j = some other → scan other.filename.toList ≠ name) :
    findImage n name (List.finRange MAX_FILE_COUNT) = .ok (some (i, image)) := by
  have at_i : entryFor n name i = some (i, image) := by
    rw [entryFor, entry, Option.bind_some, if_pos here]
  have elsewhere : ∀ j, j ≠ i → entryFor n name j = none := fun j other => by
    rw [entryFor]
    cases entry' : n.fileImages j with
    | none => rfl
    | some image' => exact if_neg (others j image' other entry')
  rw [findImage_ok named nonzero]
  have found : ((List.finRange MAX_FILE_COUNT).findSome? (entryFor n name)).isSome :=
    List.findSome?_isSome_iff.mpr ⟨i, List.mem_finRange i, by rw [at_i]; rfl⟩
  obtain ⟨r, result⟩ := Option.isSome_iff_exists.mp found
  obtain ⟨j, -, value⟩ := List.exists_of_findSome?_eq_some result
  by_cases same : j = i
  · rw [result, ← value, same, at_i]
  · rw [elsewhere j same] at value
    cases value

/-! ### Datanodes in turn -/

def loopback : IpString := ⟨⟨[49, 50, 55, 46, 48, 46, 48, 46, 49], by simp⟩, by decide⟩

def Registered (n : Namenode) : Prop := ∃ i, (n.dnlist i).isSome

theorem nextDatanode_ok (registered : Registered n) (index : Fin MAX_DATANODE_NUM) :
    ∃ found datanode, nextDatanode n MAX_DATANODE_NUM index = .ok (found, datanode) ∧ n.dnlist found = some datanode := by
  have walk : ∀ remaining (index : Fin MAX_DATANODE_NUM) (k : Nat), k < remaining → (n.dnlist (index + Fin.ofNat 10 k)).isSome →
      ∃ found datanode, nextDatanode n remaining index = .ok (found, datanode) ∧ n.dnlist found = some datanode := by
    intro remaining
    induction remaining with
    | zero => intro index k few
              exact absurd few (Nat.not_lt_zero k)
    | succ remaining ih =>
      intro index k few there
      rw [nextDatanode]
      cases entry : n.dnlist index with
      | some datanode => exact ⟨index, datanode, rfl, entry⟩
      | none =>
        cases k with
        | zero =>
          have here : index + Fin.ofNat 10 0 = index := by simp
          rw [here, entry] at there
          cases there
        | succ k =>
          apply ih (index + 1) k (by omega)
          have along : index + 1 + Fin.ofNat 10 k = index + Fin.ofNat 10 (k + 1) := by
            ext
            simp only [Fin.val_add, Fin.val_ofNat]
            show ((index.val + 1) % 10 + k % 10) % 10 = (index.val + (k + 1) % 10) % 10
            omega
          rw [along]
          exact there
  obtain ⟨i, there⟩ := registered
  apply walk 10 index (i - index).val (i - index).isLt
  have back : index + Fin.ofNat 10 (i - index).val = i := by
    ext
    simp only [Fin.val_add, Fin.val_ofNat, Fin.val_sub]
    have low : i.val < 10 := i.isLt
    have high : index.val < 10 := index.isLt
    show (index.val + (10 - index.val + i.val) % 10 % 10) % 10 = i.val
    omega
  rw [back]
  exact there

/-! ### Blocks -/

/-- Entry `k` of a block list, placed on the datanode of entry `index`. -/
structure PlacedOn (n : Namenode) (name : List UInt8) (fileBlock : Int → BlockDesc) (k : Nat) (index : Fin MAX_DATANODE_NUM)
    (block : BlockDesc) : Prop where
  owner : cstr block.ownerName = .ok name
  id : block.blockId = k
  content : block.content = (fileBlock k).content
  dnId : block.dnId = index.val + 1
  node : ∃ datanode, n.dnlist index = some datanode ∧ cstr block.locIp = .ok datanode.ip.text.bytes ∧
    block.locPort = datanode.port

/-- Entry `k` of a block list, as a write request leaves it. -/
structure Placed (n : Namenode) (name : List UInt8) (fileBlock : Int → BlockDesc) (k : Nat) (block : BlockDesc) : Prop where
  owner : cstr block.ownerName = .ok name
  id : block.blockId = k
  content : block.content = (fileBlock k).content
  node : ∃ index datanode, n.dnlist index = some datanode ∧ block.dnId = index.val + 1 ∧
    cstr block.locIp = .ok datanode.ip.text.bytes ∧ block.locPort = datanode.port

theorem PlacedOn.placed {k : Nat} {index : Fin MAX_DATANODE_NUM} {block : BlockDesc}
    (placed : PlacedOn n name fileBlock k index block) : Placed n name fileBlock k block := by
  obtain ⟨datanode, entry, ip, port⟩ := placed.node
  exact ⟨placed.owner, placed.id, placed.content, index, datanode, entry, placed.dnId, ip, port⟩

/-- Entry `k` of a block list; entries behind its end are never read. -/
def FileDesc.entry (f : FileDesc) (k : Nat) : BlockDesc := if h : k < MAX_FILE_BLK_COUNT then f.blockList ⟨k, h⟩ else .zero

theorem block_ok (f : FileDesc) {k : Nat} (h : k < MAX_FILE_BLK_COUNT) : f.block k = .ok (f.entry k) := by
  have range : 0 ≤ (k : Int) ∧ (k : Int) < MAX_FILE_BLK_COUNT := by omega
  rw [FileDesc.block, dif_pos range, FileDesc.entry, dif_pos h]
  rfl

theorem setBlock_ok (f : FileDesc) {k : Nat} (h : k < MAX_FILE_BLK_COUNT) (block : BlockDesc) :
    ∃ f', f.setBlock k block = .ok f' ∧ f'.filename = f.filename ∧ f'.fileSize = f.fileSize ∧ f'.blocknum = f.blocknum ∧
      ∀ j, f'.entry j = if j = k then block else f.entry j := by
  have range : 0 ≤ (k : Int) ∧ (k : Int) < MAX_FILE_BLK_COUNT := by omega
  refine ⟨_, dif_pos range, rfl, rfl, rfl, fun j => ?_⟩
  unfold FileDesc.entry
  by_cases inside : j < MAX_FILE_BLK_COUNT
  · rw [dif_pos inside, dif_pos inside]
    dsimp only
    rw [Function.update_apply]
    by_cases same : j = k
    · subst same
      rw [if_pos rfl, if_pos (Fin.ext (by simp))]
    · rw [if_neg same, if_neg fun both => same (by simpa using congrArg Fin.val both)]
  · rw [dif_neg inside, dif_neg inside, if_neg (by omega)]

/-- Blocks `lo` to `hi` are placed and nothing else is changed. -/
structure Assigned (n : Namenode) (name : List UInt8) (fileBlock : Int → BlockDesc) (lo hi : Nat)
    (image image' : FileDesc) : Prop where
  filename : image'.filename = image.filename
  fileSize : image'.fileSize = image.fileSize
  blocknum : image'.blocknum = image.blocknum
  placed : ∀ k, lo ≤ k → k < hi → Placed n name fileBlock k (image'.entry k)
  kept : ∀ k, k < lo ∨ hi ≤ k → image'.entry k = image.entry k

/-- The entries of `dnlist` that the loop finds from `next` on, one in each round. -/
structure Visits (n : Namenode) (stride next : Fin MAX_DATANODE_NUM) (node : Nat → Fin MAX_DATANODE_NUM) : Prop where
  first : ∃ datanode, nextDatanode n MAX_DATANODE_NUM next = .ok (node 0, datanode) ∧ n.dnlist (node 0) = some datanode
  next : ∀ j, ∃ datanode, nextDatanode n MAX_DATANODE_NUM (node j + stride) = .ok (node (j + 1), datanode) ∧
    n.dnlist (node (j + 1)) = some datanode

theorem exists_visits (registered : Registered n) (stride next : Fin MAX_DATANODE_NUM) : ∃ node, Visits n stride next node := by
  choose found datanode run entry using nextDatanode_ok registered
  refine ⟨fun j => Nat.rec (found next) (fun _ index => found (index + stride)) j, ⟨_, run next, entry next⟩, fun j => ?_⟩
  exact ⟨_, run _, entry _⟩

theorem assignBlocks_visits {stride : Fin MAX_DATANODE_NUM} {node : Nat → Fin MAX_DATANODE_NUM} (nonzero : ∀ c ∈ name, c ≠ 0)
    (fits : name.length ≤ 255) {remaining block : Nat} (inside : block + remaining ≤ MAX_FILE_BLK_COUNT)
    {next : Fin MAX_DATANODE_NUM} (visits : Visits n stride next node) :
    ∃ image', assignBlocks n name fileBlock stride remaining block next image = .ok image' ∧
      Assigned n name fileBlock block (block + remaining) image image' ∧
      ∀ j < remaining, PlacedOn n name fileBlock (block + j) (node j) (image'.entry (block + j)) := by
  induction remaining generalizing block next image node with
  | zero =>
    exact ⟨image, rfl, ⟨rfl, rfl, rfl, fun k low high => by omega, fun _ _ => rfl⟩,
      fun j none => absurd none (Nat.not_lt_zero j)⟩
  | succ remaining ih =>
    obtain ⟨datanode, found, entry⟩ := visits.first
    have room := datanode.ip.fits
    have owner := strcpy_ok (fileBlock block).ownerName (s := name) (by omega)
    have ip := strcpy_ok (fileBlock block).locIp (s := datanode.ip.text.bytes) (by omega)
    obtain ⟨image₁, stored, filename, fileSize, blocknum, entries⟩ := setBlock_ok image (k := block) (by omega)
      ⟨(fileBlock block).ownerName.patch 0 (name ++ [0]), (node 0).val + 1, block,
        (fileBlock block).locIp.patch 0 (datanode.ip.text.bytes ++ [0]), datanode.port, (fileBlock block).content⟩
    obtain ⟨image', run, rest, behind⟩ := @ih image₁ (fun j => node (j + 1)) (block + 1) (by omega) (node 0 + stride)
      ⟨visits.next 0, fun j => visits.next (j + 1)⟩
    have here : PlacedOn n name fileBlock block (node 0) (image'.entry block) := by
      rw [rest.kept block (by omega), entries, if_pos rfl]
      exact ⟨cstr_strcpy _ nonzero (by omega), rfl, rfl, rfl, datanode, entry,
        cstr_strcpy _ datanode.ip.text.nonzero (by omega), rfl⟩
    refine ⟨image', ?_, ⟨rest.filename.trans filename, rest.fileSize.trans fileSize, rest.blocknum.trans blocknum,
      fun k low high => ?_, fun k outside => ?_⟩, fun j few => ?_⟩
    · rw [assignBlocks, found, ok_bind]
      dsimp only
      rw [owner, ok_bind, ip, ok_bind, stored, ok_bind]
      exact run
    · by_cases first : k = block
      · subst first
        exact here.placed
      · exact rest.placed k (by omega) (by omega)
    · rw [rest.kept k (by omega), entries, if_neg (by omega)]
    · cases j with
      | zero => exact here
      | succ j =>
        have later := behind j (by omega)
        rwa [show block + 1 + j = block + (j + 1) by omega] at later

theorem assignBlocks_ok (registered : Registered n) (nonzero : ∀ c ∈ name, c ≠ 0) (fits : name.length ≤ 255)
    (stride : Fin MAX_DATANODE_NUM) {remaining block : Nat} (inside : block + remaining ≤ MAX_FILE_BLK_COUNT)
    (next : Fin MAX_DATANODE_NUM) :
    ∃ image', assignBlocks n name fileBlock stride remaining block next image = .ok image' ∧
      Assigned n name fileBlock block (block + remaining) image image' := by
  obtain ⟨node, visits⟩ := exists_visits registered stride next
  obtain ⟨image', run, assigned, -⟩ := @assignBlocks_visits n name fileBlock image stride node nonzero fits remaining block inside
    next visits
  exact ⟨image', run, assigned⟩

theorem setBlock_range {i : Int} {block : BlockDesc} (run : image.setBlock i block = .ok image') :
    0 ≤ i ∧ i < MAX_FILE_BLK_COUNT := by
  unfold FileDesc.setBlock at run
  split at run
  · assumption
  · cases run

/-- The loop returns only if all its blocks are inside the array. -/
theorem assignBlocks_range {stride next : Fin MAX_DATANODE_NUM} {remaining : Nat} {block : Int} (some : 0 < remaining)
    (run : assignBlocks n name fileBlock stride remaining block next image = .ok image') :
    0 ≤ block ∧ block + remaining ≤ MAX_FILE_BLK_COUNT := by
  induction remaining generalizing block next image with
  | zero => exact absurd some (Nat.lt_irrefl 0)
  | succ remaining ih =>
    rw [assignBlocks] at run
    obtain ⟨found, -, run⟩ := bind_ok run
    obtain ⟨ownerName, -, run⟩ := bind_ok run
    obtain ⟨locIp, -, run⟩ := bind_ok run
    obtain ⟨image₁, stored, run⟩ := bind_ok run
    obtain ⟨low, high⟩ := setBlock_range stored
    cases remaining with
    | zero => exact ⟨low, by omega⟩
    | succ remaining =>
      have rest := ih (Nat.succ_pos remaining) run
      exact ⟨low, by omega⟩

end StorageStack.Dfs
