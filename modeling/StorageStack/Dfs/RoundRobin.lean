import StorageStack.Dfs.Requests
import StorageStack.Lib.Turns

/-!
# Datanodes in turn

A search through `dnlist` goes round the array and skips the entries without a datanode. With the step of one
that a write request makes behind each block, the blocks of a new file go to the registered datanodes in turn.
-/

namespace StorageStack.Dfs
open Lib CString

variable {n : Namenode} {r : ClientReq} {name : List UInt8} {fileBlock : Int → BlockDesc} {image : FileDesc}
  {index next : Fin MAX_DATANODE_NUM} {node : Nat → Fin MAX_DATANODE_NUM}

def isRegistered (n : Namenode) (i : Fin MAX_DATANODE_NUM) : Bool := (n.dnlist i).isSome

/-- The places of the registered datanodes, in the order of `dnlist`. -/
def datanodes (n : Namenode) : List (Fin MAX_DATANODE_NUM) := (List.finRange MAX_DATANODE_NUM).filter (isRegistered n)

theorem mem_datanodes {i : Fin MAX_DATANODE_NUM} : i ∈ datanodes n ↔ (n.dnlist i).isSome := by
  rw [datanodes, List.mem_filter]
  exact and_iff_right (List.mem_finRange i)

theorem nodup_datanodes (n : Namenode) : (datanodes n).Nodup := (List.nodup_finRange _).filter _

theorem registered_iff : Registered n ↔ datanodes n ≠ [] := by
  constructor
  · intro ⟨i, there⟩ none
    have member := mem_datanodes.mpr there
    rw [none] at member
    cases member
  · intro some
    obtain ⟨i, member⟩ := List.exists_mem_of_ne_nil _ some
    exact ⟨i, mem_datanodes.mp member⟩

/-- The datanode whose turn it is. -/
def turnOf (n : Namenode) (k : Nat) : Option (Fin MAX_DATANODE_NUM) := turn (isRegistered n) (List.finRange MAX_DATANODE_NUM) k

theorem turnOf_eq (n : Namenode) (k : Nat) : turnOf n k = (datanodes n)[k % (datanodes n).length]? := rfl

def rankOf (n : Namenode) (i : Nat) : Nat := rank (isRegistered n) (List.finRange MAX_DATANODE_NUM) i

/-! ### The search -/

theorem nextDatanode_find {remaining : Nat} {found : Fin MAX_DATANODE_NUM} {datanode : Datanode}
    (run : nextDatanode n remaining index = .ok (found, datanode)) :
    ((List.range remaining).map fun k => index + Fin.ofNat 10 k).find? (isRegistered n) = some found := by
  induction remaining generalizing index with
  | zero => cases run
  | succ remaining ih =>
    rw [nextDatanode] at run
    rw [List.range_succ_eq_map, List.map_cons, List.find?_cons, List.map_map]
    have front : index + Fin.ofNat 10 0 = index := by simp
    rw [front, isRegistered]
    cases entry : n.dnlist index with
    | some datanode' =>
      rw [entry] at run
      exact congrArg some (Prod.mk.inj (Except.ok.inj run)).1
    | none =>
      rw [entry] at run
      have along : (fun k => index + Fin.ofNat 10 k) ∘ Nat.succ = fun k => index + 1 + Fin.ofNat 10 k := by
        funext k
        ext
        simp only [Function.comp_apply, Fin.val_add, Fin.val_ofNat]
        show (index.val + (k + 1) % 10) % 10 = ((index.val + 1) % 10 + k % 10) % 10
        omega
      rw [along]
      exact ih run

theorem rotate_finRange : ∀ index : Fin 10, (List.range 10).map (fun k => index + Fin.ofNat 10 k) =
    (List.finRange 10).rotate index.val := by
  decide

/-- The search from `index` on finds the datanode whose turn comes there. -/
theorem nextDatanode_turn {found : Fin MAX_DATANODE_NUM} {datanode : Datanode} (registered : Registered n)
    (run : nextDatanode n MAX_DATANODE_NUM index = .ok (found, datanode)) : turnOf n (rankOf n index.val) = some found := by
  have search := nextDatanode_find run
  rw [show ((List.range MAX_DATANODE_NUM).map fun k => index + Fin.ofNat 10 k) = _ from rotate_finRange index] at search
  rw [← search]
  have inside : index.val ≤ (List.finRange 10).length := by
    rw [List.length_finRange]
    exact Nat.le_of_lt index.isLt
  exact (find?_rotate (registered_iff.mp registered) inside).symm

theorem rankOf_end (n : Namenode) : rankOf n 10 = (datanodes n).length := rfl

theorem turnOf_next {k : Nat} {found : Fin MAX_DATANODE_NUM} (here : turnOf n k = some found) :
    turnOf n (rankOf n (found + 1).val) = turnOf n (k + 1) := by
  have place : (List.finRange MAX_DATANODE_NUM)[found.val]? = some found := by
    rw [List.getElem?_eq_getElem (by rw [List.length_finRange]; exact found.isLt), List.getElem_finRange]
    rfl
  have behind : turnOf n (rankOf n (found.val + 1)) = turnOf n (k + 1) := turn_next (List.nodup_finRange _) here place
  rw [← behind]
  have small : found.val < 10 := found.isLt
  by_cases last : found.val = 9
  · have wrapped : (found + 1).val = 0 := by
      rw [Fin.val_add, last]
      rfl
    rw [wrapped, last, show (9 : Nat) + 1 = 10 from rfl, rankOf_end]
    apply turn_congr
    exact (Nat.mod_self _).symm
  · have along : (found + 1).val = found.val + 1 := by
      rw [Fin.val_add]
      show (found.val + 1) % 10 = found.val + 1
      omega
    rw [along]

theorem Visits.turns {t : Nat} (visits : Visits n 1 next node) (start : turnOf n (rankOf n next.val) = turnOf n t) (j : Nat) :
    turnOf n (t + j) = some (node j) := by
  have registered : Registered n := by
    obtain ⟨datanode, -, entry⟩ := visits.first
    refine ⟨node 0, ?_⟩
    rw [entry]
    rfl
  induction j with
  | zero =>
    obtain ⟨datanode, run, -⟩ := visits.first
    rw [Nat.add_zero, ← start]
    exact nextDatanode_turn registered run
  | succ j ih =>
    obtain ⟨datanode, run, -⟩ := visits.next j
    rw [← Nat.add_assoc, ← turnOf_next ih]
    exact nextDatanode_turn registered run

theorem nextDatanode_here {datanode : Datanode} (entry : n.dnlist index = some datanode) (remaining : Nat) :
    nextDatanode n (remaining + 1) index = .ok (index, datanode) := by
  rw [nextDatanode, entry]

theorem Visits.stays (visits : Visits n 0 next node) (j : Nat) : node j = node 0 := by
  induction j with
  | zero => rfl
  | succ j ih =>
    obtain ⟨datanode, run, -⟩ := visits.next j
    have here : ∃ datanode, n.dnlist (node j) = some datanode := by
      cases j with
      | zero => exact visits.first.imp fun _ both => both.2
      | succ j => exact (visits.next j).imp fun _ both => both.2
    obtain ⟨datanode', entry⟩ := here
    have back : node j + 0 = node j := add_zero _
    rw [back] at run
    rw [← ih]
    exact (Prod.mk.inj (Except.ok.inj (run.symm.trans (nextDatanode_here entry 9)))).1

/-! ### A new file -/

/-- How many blocks of the file are on the datanode at place `index`. -/
def blocksOn (image : FileDesc) (index : Fin MAX_DATANODE_NUM) : Nat :=
  ((List.range image.blocknum.toNat).filter fun j => (image.entry j).dnId = index.val + 1).length

/-- Block `j` is on the datanode whose turn is `j`, and no datanode has two blocks more than another one. -/
structure DealtOut (n : Namenode) (fileSize : Int) (image : FileDesc) : Prop where
  blocknum : image.blocknum = blocksFor fileSize
  fileSize : image.fileSize = fileSize
  turns : ∀ j : Nat, (j : Int) < image.blocknum → ∃ index datanode, (datanodes n)[j % (datanodes n).length]? = some index ∧
    n.dnlist index = some datanode ∧ (image.entry j).dnId = index.val + 1 ∧
    cstr (image.entry j).locIp = .ok datanode.ip.text.bytes ∧ (image.entry j).locPort = datanode.port
  even : ∀ a ∈ datanodes n, ∀ b ∈ datanodes n, blocksOn image a ≤ blocksOn image b + 1

theorem blocksFor_range {size : Int} (low : 0 ≤ size) (high : size ≤ 100 * 1024) :
    0 ≤ blocksFor size ∧ blocksFor size ≤ MAX_FILE_BLK_COUNT := by
  show 0 ≤ (size + 1023) / 1024 ∧ (size + 1023) / 1024 ≤ 100
  omega

theorem blocksOn_eq {blocks i : Nat} (blocknum : image.blocknum = blocks)
    (turns : ∀ j < blocks, ∃ other, (datanodes n)[j % (datanodes n).length]? = some other ∧ (image.entry j).dnId = other.val + 1)
    (place : (datanodes n)[i]? = some index) :
    blocksOn image index = ((List.range blocks).filter fun j => j % (datanodes n).length = i).length := by
  rw [blocksOn, blocknum, Int.toNat_natCast]
  congr 1
  apply List.filter_congr
  intro j member
  obtain ⟨other, turn, id⟩ := turns j (List.mem_range.mp member)
  obtain ⟨inside, -⟩ := List.getElem?_eq_some_iff.mp turn
  rw [id]
  refine decide_eq_decide.mpr ⟨fun same => ?_, fun same => ?_⟩
  · obtain rfl : other = index := Fin.ext (by omega)
    exact (List.getElem?_inj inside (nodup_datanodes n)).mp (turn.trans place.symm)
  · rw [same, place] at turn
    rw [Option.some.inj turn]

/-- The blocks of a new file are dealt out to the registered datanodes in turn. -/
theorem new_file_dealt_out (first : FirstWrite n r name) (registered : datanodes n ≠ []) (low : 0 ≤ r.fileSize)
    (high : r.fileSize ≤ 100 * 1024) (fileBlock : Int → BlockDesc) :
    ∃ image n', getFileReceivers n r fileBlock = .ok (some (.file image), n') ∧ (∃ i, ImageAt n' name i image) ∧
      DealtOut n r.fileSize image := by
  obtain ⟨nonneg, few⟩ := blocksFor_range low high
  obtain ⟨node, visits⟩ := exists_visits (registered_iff.mpr registered) 1 0
  obtain ⟨blocks, count⟩ := Int.eq_ofNat_of_zero_le nonneg
  obtain ⟨place, image, -, run, filename, fileSize, blocknum, placed⟩ :=
    first.run ((blockCount_blocksFor low few).1.trans count) (by omega) visits fileBlock
  have turns : ∀ j, (datanodes n)[j % (datanodes n).length]? = some (node j) := by
    intro j
    have turn := visits.turns (t := 0) rfl j
    rwa [Nat.zero_add] at turn
  have named : cstr image.filename = .ok name := by
    rw [filename]
    exact cstr_strcpy _ (cstr_nonzero first.string) (cstr_length first.string)
  refine ⟨image, _, run, ⟨place, Function.update_self .., named⟩, ?_⟩
  constructor
  case blocknum => rw [blocknum, count]
  case fileSize => exact fileSize
  case turns =>
    intro j below
    have here := placed j (by omega)
    obtain ⟨datanode, entry, ip, port⟩ := here.node
    exact ⟨node j, datanode, turns j, entry, here.dnId, ip, port⟩
  case even =>
    have each : ∀ j < blocks, ∃ other, (datanodes n)[j % (datanodes n).length]? = some other ∧
        (image.entry j).dnId = other.val + 1 := fun j h => ⟨node j, turns j, (placed j h).dnId⟩
    intro a ma b mb
    obtain ⟨i, inside, ha⟩ := List.getElem_of_mem ma
    obtain ⟨j, inside', hb⟩ := List.getElem_of_mem mb
    rw [blocksOn_eq blocknum each ((List.getElem?_eq_getElem inside).trans (congrArg some ha)),
      blocksOn_eq blocknum each ((List.getElem?_eq_getElem inside').trans (congrArg some hb))]
    have upper := (count_turns i blocks inside).2
    have lower := (count_turns j blocks inside').1
    omega

/-- Datanodes 3 and 8 are registered. -/
def twoDatanodes : Namenode :=
  ⟨fun i => if i.val = 2 ∨ i.val = 7 then some ⟨i.val + 1, loopback, 50060⟩ else none, fun _ => none, 2, false⟩

theorem twoDatanodes_first (size : Int) : FirstWrite twoDatanodes ⟨letterName, size, 1⟩ [102] where
  named := fun i image entry => by cases entry
  absent := fun i image entry => by cases entry
  free := ⟨0, rfl⟩
  kind := rfl
  string := cstr_letterName

/-- Three blocks for two datanodes. -/
theorem three_blocks_dealt_out : ∃ image n', getFileReceivers twoDatanodes ⟨letterName, 3000, 1⟩ (fun _ => .zero) =
    .ok (some (.file image), n') ∧ (∃ i, ImageAt n' [102] i image) ∧ DealtOut twoDatanodes 3000 image :=
  new_file_dealt_out (twoDatanodes_first 3000) (by decide) (by decide) (by decide) fun _ => .zero

end StorageStack.Dfs
