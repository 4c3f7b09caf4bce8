import StorageStack.Dfs.DroppedReply
import StorageStack.Dfs.Registration
import StorageStack.Lib.Codec

/-!
# Messages as bytes

The structures of the header as they lie in memory, on a machine with four-byte integers and without padding.
Programs send and receive these bytes. Whatever the namenode and the datanodes are asked, what they hold and what
they answer fits the fields it is sent in.
-/

namespace StorageStack.Dfs
open Lib CString Codec

/-! ### Layouts -/

def clientReqCodec : Codec ClientReq := ((chars 256).pair (int32.pair int32)).map
  { toFun := fun p => ⟨p.1, p.2.1, p.2.2⟩
    invFun := fun r => (r.fileName, r.fileSize, r.reqType)
    left_inv := fun _ => rfl
    right_inv := fun _ => rfl }

def statusCodec : Codec DatanodeStatus := (int32.pair int32).map
  { toFun := fun p => ⟨p.1, p.2⟩
    invFun := fun s => (s.datanodeId, s.datanodeListenPort)
    left_inv := fun _ => rfl
    right_inv := fun _ => rfl }

def blockCodec : Codec BlockDesc :=
  ((chars 256).pair (int32.pair (int32.pair ((chars 16).pair (int32.pair (chars DFS_BLOCK_SIZE)))))).map
  { toFun := fun p => ⟨p.1, p.2.1, p.2.2.1, p.2.2.2.1, p.2.2.2.2.1, p.2.2.2.2.2⟩
    invFun := fun b => (b.ownerName, b.dnId, b.blockId, b.locIp, b.locPort, b.content)
    left_inv := fun _ => rfl
    right_inv := fun _ => rfl }

def fileCodec : Codec FileDesc :=
  ((chars 256).pair ((array MAX_FILE_BLK_COUNT blockCodec).pair (int32.pair int32))).map
  { toFun := fun p => ⟨p.1, p.2.1, p.2.2.1, p.2.2.2⟩
    invFun := fun f => (f.filename, f.blockList, f.fileSize, f.blocknum)
    left_inv := fun _ => rfl
    right_inv := fun _ => rfl }

def dnReqCodec : Codec DnReq := (int32.pair blockCodec).map
  { toFun := fun p => ⟨p.1, p.2⟩
    invFun := fun r => (r.opType, r.block)
    left_inv := fun _ => rfl
    right_inv := fun _ => rfl }

/-- `dfs_system_status`: the number, and an array of 100 descriptors of 28 bytes. -/
def systemStatusCodec : Codec (Int × Bytes 2800) := int32.pair (chars 2800)

example : (clientReqCodec.size, statusCodec.size, blockCodec.size, fileCodec.size, dnReqCodec.size, systemStatusCodec.size) =
    (264, 8, 1308, 131064, 1312, 2804) := rfl

theorem isInt32_zero : IsInt32 0 := ⟨by decide, by decide⟩

theorem isInt32_one : IsInt32 1 := ⟨by decide, by decide⟩

theorem valid_clientReq (r : ClientReq) : clientReqCodec.Valid r ↔ IsInt32 r.fileSize ∧ IsInt32 r.reqType := and_iff_right trivial

theorem valid_block (b : BlockDesc) : blockCodec.Valid b ↔ IsInt32 b.dnId ∧ IsInt32 b.blockId ∧ IsInt32 b.locPort := by
  constructor
  · rintro ⟨-, dnId, blockId, -, locPort, -⟩
    exact ⟨dnId, blockId, locPort⟩
  · rintro ⟨dnId, blockId, locPort⟩
    exact ⟨trivial, dnId, blockId, trivial, locPort, trivial⟩

theorem valid_file (f : FileDesc) : fileCodec.Valid f ↔
    (∀ i, blockCodec.Valid (f.blockList i)) ∧ IsInt32 f.fileSize ∧ IsInt32 f.blocknum := and_iff_right trivial

theorem valid_zero : fileCodec.Valid .zero := by
  refine (valid_file _).mpr ⟨fun i => ?_, isInt32_zero, isInt32_zero⟩
  exact (valid_block _).mpr ⟨isInt32_zero, isInt32_zero, isInt32_zero⟩

/-! ### Connections -/

/-- How one message crosses a connection: the transfers that `send` and `recv` make of it, of which no `send` runs past
its end, and what the receiver has in its buffer before. -/
structure Link (size : Nat) where
  buffer : Bytes size
  sent : List Int
  ready : List Int
  sends : Transfers size sent
  receives : Transfers size ready
  whole : EndsAt size sent

variable {size : Nat}

def Link.send (l : Link size) (data : List UInt8) : Outcome (List UInt8) := sendData data size l.sent []

/-- What the buffer holds afterwards. -/
def Link.receive (l : Link size) (stream : List UInt8) : Outcome (List UInt8) := do
  let (data, _) ← receiveData l.buffer.toList size l.ready stream
  .ok data

theorem Link.send_ok (l : Link size) {data : List UInt8} (length : data.length = size) : l.send data = .ok data := by
  have sent := @sendLoop_ok_iff size l.sent data [] data 0 length (Nat.zero_le _) l.sends.each (by simpa using l.sends.enough)
  rw [Link.send, sendData, sent, Int.natCast_zero, Int.sub_zero, List.drop_zero, List.nil_append]
  exact ⟨l.whole, rfl⟩

theorem Link.receive_ok (l : Link size) {stream : List UInt8} (length : stream.length = size) :
    l.receive stream = .ok stream := by
  have received := @receiveLoop_ok_iff size l.ready l.buffer.toList stream (stream, []) 0 l.buffer.length_toList
    (Nat.zero_le _) (by omega) l.receives.each (by simpa using l.receives.enough)
  have got : receiveData l.buffer.toList size l.ready stream = .ok (stream, []) := by
    rw [receiveData, received]
    refine ⟨.inr (by omega), ?_⟩
    rw [List.take_zero, List.nil_append, Nat.sub_zero, List.take_of_length_le (by omega), List.drop_of_length_le (by omega)]
  rw [Link.receive, got, ok_bind]

/-- A connection that is closed before the whole message came. -/
theorem Link.receive_short (l : Link size) {stream : List UInt8} (short : stream.length < size) :
    l.receive stream = .error .spins := by
  rw [Link.receive, receiveData, receiveLoop_spins l.buffer.length_toList (by omega), error_bind]

/-! ### Values that fit -/

/-- What the namenode holds fits the messages it is sent in. -/
structure Namenode.Sized (n : Namenode) : Prop where
  ports : ∀ i datanode, n.dnlist i = some datanode → datanode.port < 65536
  images : ∀ i image, n.fileImages i = some image → fileCodec.Valid image
  dncnt : n.dncnt = (present n).card

def Reply.Sized : Reply → Prop
  | .file image => fileCodec.Valid image
  | .status datanodeNum => IsInt32 datanodeNum

variable {n n' : Namenode} {r : ClientReq} {name : List UInt8} {fileBlock : Int → BlockDesc} {image image' : FileDesc}
  {reply : Option Reply}

theorem isInt32_small {i : Int} (low : 0 ≤ i) (high : i < 65536) : IsInt32 i := ⟨by omega, by omega⟩

theorem ntohs_lt (x : Int) : ntohs x < 65536 := by
  unfold ntohs
  dsimp only
  omega

theorem nextDatanode_entry {remaining : Nat} {index found : Fin MAX_DATANODE_NUM} {datanode : Datanode}
    (run : nextDatanode n remaining index = .ok (found, datanode)) : n.dnlist found = some datanode := by
  induction remaining generalizing index with
  | zero => cases run
  | succ remaining ih =>
    rw [nextDatanode] at run
    cases entry : n.dnlist index with
    | none =>
      rw [entry] at run
      exact ih run
    | some d =>
      rw [entry] at run
      obtain ⟨rfl, rfl⟩ := Prod.mk.inj (Except.ok.inj run)
      exact entry

theorem setBlock_valid {i : Int} {block : BlockDesc} (valid : fileCodec.Valid image) (fits : blockCodec.Valid block)
    (run : image.setBlock i block = .ok image') : fileCodec.Valid image' := by
  rw [valid_file] at valid ⊢
  unfold FileDesc.setBlock at run
  split at run
  · obtain rfl := Except.ok.inj run
    refine ⟨fun j => ?_, valid.2⟩
    dsimp only
    rw [Function.update_apply]
    split
    · exact fits
    · exact valid.1 j
  · cases run

theorem assignBlocks_valid {stride next : Fin MAX_DATANODE_NUM} {remaining : Nat} {block : Int} (sized : n.Sized)
    (valid : fileCodec.Valid image) (run : assignBlocks n name fileBlock stride remaining block next image = .ok image') :
    fileCodec.Valid image' := by
  induction remaining generalizing block next image with
  | zero =>
    obtain rfl := Except.ok.inj run
    exact valid
  | succ remaining ih =>
    rw [assignBlocks] at run
    obtain ⟨⟨index, datanode⟩, found, run⟩ := bind_ok run
    obtain ⟨ownerName, -, run⟩ := bind_ok run
    obtain ⟨locIp, -, run⟩ := bind_ok run
    obtain ⟨image₁, stored, run⟩ := bind_ok run
    have port := sized.ports index datanode (nextDatanode_entry found)
    have range := setBlock_range stored
    have few : index.val < 10 := index.isLt
    refine ih (setBlock_valid valid ((valid_block _).mpr ⟨isInt32_small ?_ ?_, isInt32_small range.1 ?_, isInt32_small ?_ ?_⟩)
      stored) run
    · dsimp only
      omega
    · dsimp only
      omega
    · have high : block < 100 := range.2
      dsimp only
      omega
    · dsimp only
      omega
    · dsimp only
      omega

theorem isInt32_tdiv {i : Int} (fits : IsInt32 i) (d : Int) (positive : 1 < d) : IsInt32 (i.tdiv d) := by
  have half : (i.tdiv d).natAbs * 2 ≤ i.natAbs := by
    rw [Int.natAbs_tdiv]
    calc i.natAbs / d.natAbs * 2 ≤ i.natAbs / d.natAbs * d.natAbs := Nat.mul_le_mul_left _ (by omega)
      _ ≤ i.natAbs := Nat.div_mul_le_self ..
  obtain ⟨low, high⟩ := fits
  constructor
  · omega
  · omega

theorem isInt32_blockCount (fileSize : Int) : IsInt32 (blockCount fileSize) :=
  isInt32_tdiv (isInt32_toInt32 _) 1024 (by decide)

/-! ### The namenode -/

theorem findImage_entry {places : List (Fin MAX_FILE_COUNT)} {i : Fin MAX_FILE_COUNT}
    (run : findImage n name places = .ok (some (i, image))) : n.fileImages i = some image := by
  induction places with
  | nil => cases run
  | cons j rest ih =>
    rw [findImage] at run
    cases entry : n.fileImages j with
    | none =>
      rw [entry] at run
      exact ih run
    | some other =>
      rw [entry] at run
      obtain ⟨same, -, run⟩ := bind_ok run
      cases same with
      | true =>
        obtain ⟨rfl, rfl⟩ := Prod.mk.inj (Option.some.inj (Except.ok.inj run))
        exact entry
      | false => exact ih run

theorem imageFor_valid {i : Fin MAX_FILE_COUNT} (sized : n.Sized) (fileSize : IsInt32 r.fileSize)
    (run : imageFor n r name = .ok (some (i, image))) : fileCodec.Valid image := by
  obtain ⟨found, looked, run⟩ := bind_ok run
  cases found with
  | some p =>
    obtain ⟨rfl, rfl⟩ := Prod.mk.inj (Option.some.inj (Except.ok.inj run))
    exact sized.images _ _ (findImage_entry looked)
  | none =>
    dsimp only at run
    cases place : (List.finRange MAX_FILE_COUNT).find? (fun i => (n.fileImages i).isNone) with
    | none =>
      rw [place] at run
      cases run
    | some j =>
      rw [place] at run
      obtain ⟨filename, -, run⟩ := bind_ok run
      obtain ⟨-, rfl⟩ := Prod.mk.inj (Option.some.inj (Except.ok.inj run))
      exact (valid_file _).mpr ⟨((valid_file _).mp valid_zero).1, fileSize, ((valid_file _).mp valid_zero).2.2⟩

theorem Namenode.Sized.update (sized : n.Sized) (i : Fin MAX_FILE_COUNT) (valid : fileCodec.Valid image) :
    Namenode.Sized { n with fileImages := Function.update n.fileImages i (some image) } := by
  refine ⟨sized.ports, fun j other entry => ?_, sized.dncnt⟩
  dsimp only at entry
  by_cases here : j = i
  · rw [here, Function.update_self] at entry
    obtain rfl := Option.some.inj entry
    exact valid
  · rw [Function.update_of_ne here] at entry
    exact sized.images j other entry

theorem Namenode.Sized.isInt32_dncnt (sized : n.Sized) : IsInt32 n.dncnt := by
  have few : (present n).card ≤ 10 := card_finset_fin_le _
  rw [sized.dncnt]
  exact isInt32_small (by omega) (by omega)

theorem getFileReceivers_sized (sized : n.Sized) (fileSize : IsInt32 r.fileSize)
    (run : getFileReceivers n r fileBlock = .ok (reply, n')) : n'.Sized ∧ ∀ a ∈ reply, a.Sized := by
  obtain ⟨name, -, run⟩ := bind_ok run
  obtain ⟨found, looked, run⟩ := bind_ok run
  cases found with
  | none =>
    obtain ⟨rfl, rfl⟩ := Prod.mk.inj (Except.ok.inj run)
    exact ⟨sized, fun a none => by cases none⟩
  | some p =>
    obtain ⟨image, assigned, run⟩ := bind_ok run
    obtain ⟨rfl, rfl⟩ := Prod.mk.inj (Except.ok.inj run)
    have before := (valid_file _).mp (imageFor_valid sized fileSize looked)
    have start : fileCodec.Valid { p.2 with blocknum := blockCount r.fileSize } :=
      (valid_file _).mpr ⟨before.1, before.2.1, isInt32_blockCount r.fileSize⟩
    have valid := assignBlocks_valid sized start assigned
    exact ⟨sized.update p.1 valid, fun a here => Option.some.inj here ▸ valid⟩

theorem getFileLocation_sized (sized : n.Sized) (run : getFileLocation n r = .ok (reply, n')) :
    n'.Sized ∧ ∀ a ∈ reply, a.Sized := by
  obtain ⟨name, -, run⟩ := bind_ok run
  obtain ⟨found, looked, run⟩ := bind_ok run
  cases found with
  | none =>
    obtain ⟨rfl, rfl⟩ := Prod.mk.inj (Except.ok.inj run)
    exact ⟨sized, fun a none => by cases none⟩
  | some p =>
    obtain ⟨rfl, rfl⟩ := Prod.mk.inj (Except.ok.inj run)
    exact ⟨sized, fun a here => Option.some.inj here ▸ sized.images _ _ (findImage_entry looked)⟩

theorem getFileUpdatePoint_sized (sized : n.Sized) (run : getFileUpdatePoint n r = .ok (reply, n')) :
    n'.Sized ∧ ∀ a ∈ reply, a.Sized := by
  obtain ⟨name, -, run⟩ := bind_ok run
  obtain ⟨found, looked, run⟩ := bind_ok run
  cases found with
  | none =>
    obtain ⟨rfl, rfl⟩ := Prod.mk.inj (Except.ok.inj run)
    exact ⟨sized, fun a none => by cases none⟩
  | some p =>
    have before := sized.images _ _ (findImage_entry looked)
    dsimp only at run
    split at run
    · obtain ⟨last, -, run⟩ := bind_ok run
      obtain ⟨index, -, run⟩ := bind_ok run
      obtain ⟨image, assigned, run⟩ := bind_ok run
      obtain ⟨rfl, rfl⟩ := Prod.mk.inj (Except.ok.inj run)
      have valid := assignBlocks_valid sized before assigned
      exact ⟨sized.update p.1 valid, fun a here => Option.some.inj here ▸ valid⟩
    · obtain ⟨rfl, rfl⟩ := Prod.mk.inj (Except.ok.inj run)
      exact ⟨sized, fun a here => Option.some.inj here ▸ before⟩

/-- What the namenode answers, and what it keeps, fits. -/
theorem answer_sized (sized : n.Sized) (fileSize : IsInt32 r.fileSize) (run : answer n r fileBlock = .ok (reply, n')) :
    n'.Sized ∧ ∀ a ∈ reply, a.Sized := by
  unfold answer at run
  split at run
  · exact getFileLocation_sized sized run
  · split at run
    · exact getFileReceivers_sized sized fileSize run
    · split at run
      · obtain ⟨rfl, rfl⟩ := Prod.mk.inj (Except.ok.inj run)
        exact ⟨sized, fun a here => Option.some.inj here ▸ sized.isInt32_dncnt⟩
      · split at run
        · exact getFileUpdatePoint_sized sized run
        · obtain ⟨rfl, rfl⟩ := Prod.mk.inj (Except.ok.inj run)
          exact ⟨sized, fun a none => by cases none⟩

theorem registerDatanode_sized {status : DatanodeStatus} {ip : IpString} (sized : n.Sized)
    (run : registerDatanode n status ip = .ok n') : n'.Sized := by
  have low : 1 ≤ status.datanodeId := by
    by_contra negative
    have outside : ¬ (0 ≤ status.datanodeId - 1 ∧ status.datanodeId - 1 < MAX_DATANODE_NUM) := by omega
    have small : status.datanodeId < MAX_DATANODE_NUM := by
      show status.datanodeId < 10
      omega
    rw [registerDatanode, if_pos small, dif_neg outside] at run
    cases run
  rcases registerDatanode_ok n ip low with ⟨-, same⟩ | ⟨index, -, -, registered⟩
  · obtain rfl := Except.ok.inj (same.symm.trans run)
    exact sized
  · obtain rfl := Except.ok.inj (registered.symm.trans run)
    refine ⟨fun i datanode entry => ?_, sized.images, card_present_register n index sized.dncnt⟩
    rw [Namenode.register] at entry
    dsimp only at entry
    by_cases here : i = index
    · rw [here, Function.update_self] at entry
      obtain rfl := Option.some.inj entry
      exact ntohs_lt _
    · rw [Function.update_of_ne here] at entry
      exact sized.ports i datanode entry

theorem sized_initial : Namenode.Sized .initial where
  ports _ _ entry := by cases entry
  images _ _ entry := by cases entry
  dncnt := rfl

/-! ### Datanodes and clients -/

theorem block_valid {i : Int} {block : BlockDesc} (valid : fileCodec.Valid image) (run : image.block i = .ok block) :
    blockCodec.Valid block := by
  unfold FileDesc.block at run
  split at run
  · obtain rfl := Except.ok.inj run
    exact ((valid_file _).mp valid).1 _
  · cases run

theorem valid_dnReq (q : DnReq) : dnReqCodec.Valid q ↔ IsInt32 q.opType ∧ blockCodec.Valid q.block := Iff.rfl

/-- The contents are not looked at. -/
theorem blockRequest_valid {i opType : Int} {block : BlockDesc} (valid : fileCodec.Valid image)
    (run : image.block i = .ok block) (op : IsInt32 opType) (content : Bytes DFS_BLOCK_SIZE) :
    dnReqCodec.Valid ⟨opType, { block with content }⟩ := by
  have fits := (valid_block _).mp (block_valid valid run)
  exact (valid_dnReq _).mpr ⟨op, (valid_block _).mpr fits⟩

theorem pushBlocks_valid {remaining count : Nat} {file : List UInt8} {messages : List Message} (valid : fileCodec.Valid image)
    (run : pushBlocks image remaining count file = .ok messages) : ∀ m ∈ messages, dnReqCodec.Valid m.request := by
  induction remaining generalizing count file messages with
  | zero =>
    obtain rfl := Except.ok.inj run
    intro m member
    cases member
  | succ remaining ih =>
    rw [pushBlocks] at run
    obtain ⟨block, found, run⟩ := bind_ok run
    obtain ⟨address, -, run⟩ := bind_ok run
    obtain ⟨rest, later, run⟩ := bind_ok run
    obtain rfl := Except.ok.inj run
    intro m member
    rcases List.mem_cons.mp member with rfl | member
    · exact blockRequest_valid valid found isInt32_one _
    · exact ih later m member

theorem modifyBlocks_valid {remaining : Nat} {index : Int} {file : List UInt8} {messages : List Message}
    (valid : fileCodec.Valid image) (run : modifyBlocks image index remaining file = .ok messages) :
    ∀ m ∈ messages, dnReqCodec.Valid m.request := by
  induction remaining generalizing file messages with
  | zero =>
    obtain rfl := Except.ok.inj run
    intro m member
    cases member
  | succ remaining ih =>
    rw [modifyBlocks] at run
    obtain ⟨block, found, run⟩ := bind_ok run
    obtain ⟨address, -, run⟩ := bind_ok run
    obtain ⟨rest, later, run⟩ := bind_ok run
    obtain rfl := Except.ok.inj run
    intro m member
    rcases List.mem_cons.mp member with rfl | member
    · exact blockRequest_valid valid found isInt32_one _
    · exact ih later m member

/-- A datanode keeps its id and answers with a block that fits. -/
theorem serve_sized {h h' : Host} {request : DnReq} {buffer : Bytes DFS_BLOCK_SIZE} {returned : Option BlockDesc}
    (id : IsInt32 h.datanodeId) (valid : dnReqCodec.Valid request) (run : serve h request buffer = .ok (returned, h')) :
    h'.datanodeId = h.datanodeId ∧ ∀ block ∈ returned, blockCodec.Valid block := by
  have blockId := ((valid_block _).mp ((valid_dnReq _).mp valid).2).2.1
  unfold serve at run
  split at run
  · obtain ⟨block, read, run⟩ := bind_ok run
    obtain ⟨rfl, rfl⟩ := Prod.mk.inj (Except.ok.inj run)
    refine ⟨rfl, fun _ here => ?_⟩
    obtain rfl := Option.some.inj here
    obtain ⟨_, -, read⟩ := bind_ok read
    obtain ⟨_, -, read⟩ := bind_ok read
    obtain ⟨_, -, read⟩ := bind_ok read
    obtain ⟨_, -, read⟩ := bind_ok read
    obtain ⟨_, -, read⟩ := bind_ok read
    obtain rfl := Except.ok.inj read
    exact (valid_block _).mpr ⟨id, blockId, isInt32_zero⟩
  · split at run
    · obtain ⟨h₁, created, run⟩ := bind_ok run
      obtain ⟨rfl, rfl⟩ := Prod.mk.inj (Except.ok.inj run)
      obtain ⟨_, -, created⟩ := bind_ok created
      obtain ⟨_, -, created⟩ := bind_ok created
      obtain rfl := Except.ok.inj created
      exact ⟨rfl, fun _ none => by cases none⟩
    · obtain ⟨rfl, rfl⟩ := Prod.mk.inj (Except.ok.inj run)
      exact ⟨rfl, fun _ none => by cases none⟩

end StorageStack.Dfs
