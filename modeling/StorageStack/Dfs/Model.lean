import Mathlib.Data.List.FinRange
import Mathlib.Data.Nat.Digits.Defs
import Mathlib.Logic.Function.Basic
import StorageStack.Lib.CString
import StorageStack.Lib.Machine

/-!
# Namenode, datanodes and clients

The three programs as functions on their own state and the messages they exchange. A message arrives whole.
A request is answered with a message or by closing the connection, and a client that waits for an answer on a
closed connection waits for ever. Locals that are used before all of them is stored to are parameters.
-/

namespace StorageStack.Dfs
open Lib CString

abbrev MAX_FILE_COUNT : Nat := 1000
abbrev MAX_DATANODE_NUM : Nat := 10
abbrev DFS_BLOCK_SIZE : Nat := 1024
abbrev MAX_FILE_BLK_COUNT : Nat := 100

instance : NeZero MAX_DATANODE_NUM := ⟨by decide⟩

/-! ### Messages -/

/-- `dfs_cm_datanode_status_t`, with the port in network byte order. -/
structure DatanodeStatus where
  datanodeId : Int
  datanodeListenPort : Int

/-- `dfs_cm_block_t`. -/
structure BlockDesc where
  ownerName : Bytes 256
  dnId : Int
  blockId : Int
  locIp : Bytes 16
  locPort : Int
  content : Bytes DFS_BLOCK_SIZE

def BlockDesc.zero : BlockDesc := ⟨.zero, 0, 0, .zero, 0, .zero⟩

/-- `dfs_cm_file_t`. -/
structure FileDesc where
  filename : Bytes 256
  blockList : Fin MAX_FILE_BLK_COUNT → BlockDesc
  fileSize : Int
  blocknum : Int

def FileDesc.zero : FileDesc := ⟨.zero, fun _ => .zero, 0, 0⟩

def FileDesc.block (f : FileDesc) (i : Int) : Outcome BlockDesc :=
  if h : 0 ≤ i ∧ i < MAX_FILE_BLK_COUNT then .ok (f.blockList ⟨i.toNat, by omega⟩) else .error .undefined

def FileDesc.setBlock (f : FileDesc) (i : Int) (block : BlockDesc) : Outcome FileDesc :=
  if h : 0 ≤ i ∧ i < MAX_FILE_BLK_COUNT then
    .ok { f with blockList := Function.update f.blockList ⟨i.toNat, by omega⟩ block }
  else .error .undefined

/-- `dfs_cm_client_req_t`. -/
structure ClientReq where
  fileName : Bytes 256
  fileSize : Int
  reqType : Int

/-- What the namenode answers: `dfs_cm_file_res_t`, or `dfs_system_status` with its array of zeros left out. -/
inductive Reply where
  | file (queryResult : FileDesc)
  | status (datanodeNum : Int)

/-- `dfs_cli_dn_req_t`. -/
structure DnReq where
  opType : Int
  block : BlockDesc

def cstr {n : Nat} (mem : Bytes n) : Outcome (List UInt8) :=
  if 0 ∈ mem.toList then .ok (scan mem.toList) else .error .undefined

/-! ### The namenode -/

/-- What `inet_ntoa` returns. -/
structure IpString where
  text : CString
  fits : text.bytes.length ≤ 15

/-- `dfs_datanode_t`, without the member that nothing uses. -/
structure Datanode where
  dnId : Int
  ip : IpString
  port : Nat

structure Namenode where
  dnlist : Fin MAX_DATANODE_NUM → Option Datanode
  fileImages : Fin MAX_FILE_COUNT → Option FileDesc
  dncnt : Int
  safeMode : Bool

def ntohs (x : Int) : Nat :=
  let v := (x % 65536).toNat
  v % 256 * 256 + v / 256

/-- One heartbeat that came from the address `ip`. -/
def registerDatanode (n : Namenode) (status : DatanodeStatus) (ip : IpString) : Outcome Namenode :=
  if status.datanodeId < MAX_DATANODE_NUM then
    if h : 0 ≤ status.datanodeId - 1 ∧ status.datanodeId - 1 < MAX_DATANODE_NUM then
      let index : Fin MAX_DATANODE_NUM := ⟨(status.datanodeId - 1).toNat, by omega⟩
      let datanode : Datanode := ⟨status.datanodeId, ip, ntohs status.datanodeListenPort⟩
      let dncnt := if (n.dnlist index).isNone then n.dncnt + 1 else n.dncnt
      .ok { n with dnlist := Function.update n.dnlist index (some datanode), dncnt, safeMode := false }
    else .error .undefined
  else .ok n

/-- The first entry of `file_images` for the name. -/
def findImage (n : Namenode) (name : List UInt8) : List (Fin MAX_FILE_COUNT) → Outcome (Option (Fin MAX_FILE_COUNT × FileDesc))
  | [] => .ok none
  | i :: rest =>
    match n.fileImages i with
    | none => findImage n name rest
    | some image => do
      if ← strcmpEq image.filename.toList name then .ok (some (i, image)) else findImage n name rest

/-- The first entry of `dnlist` from `index` on, which goes round; without any entry the loop never ends. -/
def nextDatanode (n : Namenode) : (remaining : Nat) → (index : Fin MAX_DATANODE_NUM) →
    Outcome (Fin MAX_DATANODE_NUM × Datanode)
  | 0, _ => .error .spins
  | remaining + 1, index =>
    match n.dnlist index with
    | some datanode => .ok (index, datanode)
    | none => nextDatanode n remaining (index + 1)

/-- The loops that place blocks. `fileBlock` is the local of that name in each round, and `stride` what a
round adds to the index of the datanode it found. -/
def assignBlocks (n : Namenode) (name : List UInt8) (fileBlock : Int → BlockDesc) (stride : Fin MAX_DATANODE_NUM) :
    (remaining : Nat) → (block : Int) → (next : Fin MAX_DATANODE_NUM) → FileDesc → Outcome FileDesc
  | 0, _, _, image => .ok image
  | remaining + 1, block, next, image => do
    let (index, datanode) ← nextDatanode n MAX_DATANODE_NUM next
    let ownerName ← strcpy (fileBlock block).ownerName 0 name
    let locIp ← strcpy (fileBlock block).locIp 0 datanode.ip.text.bytes
    let image ← image.setBlock block
      ⟨ownerName, index.val + 1, block, locIp, datanode.port, (fileBlock block).content⟩
    assignBlocks n name fileBlock stride remaining (block + 1) (index + stride) image

/-- The entry for a request: the one with its name, or a new one in the first free place. -/
def imageFor (n : Namenode) (request : ClientReq) (name : List UInt8) : Outcome (Option (Fin MAX_FILE_COUNT × FileDesc)) := do
  match ← findImage n name (List.finRange MAX_FILE_COUNT) with
  | some found => .ok (some found)
  | none =>
    match (List.finRange MAX_FILE_COUNT).find? (fun i => (n.fileImages i).isNone) with
    | none => .ok none
    | some i => do
      let filename ← strcpy FileDesc.zero.filename 0 name
      .ok (some (i, { FileDesc.zero with filename, fileSize := request.fileSize }))

def blockCount (fileSize : Int) : Int := (toInt32 (fileSize + (DFS_BLOCK_SIZE - 1))).tdiv DFS_BLOCK_SIZE

def getFileReceivers (n : Namenode) (request : ClientReq) (fileBlock : Int → BlockDesc) : Outcome (Option Reply × Namenode) := do
  let name ← cstr request.fileName
  match ← imageFor n request name with
  | none => .ok (none, n)
  | some (i, image) => do
    let count := blockCount request.fileSize
    let image ← assignBlocks n name fileBlock 1 count.toNat image.blocknum 0 { image with blocknum := count }
    .ok (some (.file image), { n with fileImages := Function.update n.fileImages i (some image) })

def getFileLocation (n : Namenode) (request : ClientReq) : Outcome (Option Reply × Namenode) := do
  let name ← cstr request.fileName
  match ← findImage n name (List.finRange MAX_FILE_COUNT) with
  | none => .ok (none, n)
  | some (_, image) => .ok (some (.file image), n)

def getSystemInformation (n : Namenode) : Option Reply × Namenode := (some (.status n.dncnt), n)

/-- The index `datanode_index % MAX_DATANODE_NUM`. -/
def datanodeIndex (i : Int) : Outcome (Fin MAX_DATANODE_NUM) :=
  if h : 0 ≤ i.tmod MAX_DATANODE_NUM ∧ i.tmod MAX_DATANODE_NUM < MAX_DATANODE_NUM then
    .ok ⟨(i.tmod MAX_DATANODE_NUM).toNat, by omega⟩
  else .error .undefined

/-- `blocks_to_allocate` is zero when it is added to `blocknum`. -/
def getFileUpdatePoint (n : Namenode) (request : ClientReq) : Outcome (Option Reply × Namenode) := do
  let name ← cstr request.fileName
  match ← findImage n name (List.finRange MAX_FILE_COUNT) with
  | none => .ok (none, n)
  | some (i, image) =>
    let requiredBlocks := blockCount request.fileSize
    if image.blocknum < requiredBlocks then do
      let last ← image.block image.blocknum
      let index ← datanodeIndex last.dnId
      let image ← assignBlocks n name (fun _ => .zero) 0 (requiredBlocks - image.blocknum).toNat image.blocknum index image
      .ok (some (.file image), { n with fileImages := Function.update n.fileImages i (some image) })
    else .ok (some (.file image), n)

/-- `requests_dispatcher` of the namenode. -/
def answer (n : Namenode) (request : ClientReq) (fileBlock : Int → BlockDesc) : Outcome (Option Reply × Namenode) :=
  if request.reqType = 0 then getFileLocation n request
  else if request.reqType = 1 then getFileReceivers n request fileBlock
  else if request.reqType = 2 then .ok (getSystemInformation n)
  else if request.reqType = 3 then getFileUpdatePoint n request
  else .ok (none, n)

/-! ### A datanode -/

/-- A datanode process and the files it can name. -/
structure Host where
  datanodeId : Int
  workingDirectory : CString
  files : List UInt8 → Option (List UInt8)

/-- `%d`. -/
def decimal (i : Int) : List UInt8 :=
  let digits := ((Nat.digits 10 i.natAbs).reverse.map fun d => UInt8.ofNat (48 + d))
  if i = 0 then [48] else if i < 0 then 45 :: digits else digits

def blkInfix : List UInt8 := [95, 98, 108, 107, 95]

/-- The path of a block's file, in a buffer that has room for ids of two digits. -/
def getBlockFilePath (h : Host) (filename : List UInt8) (blockId : Int) : Outcome (List UInt8) :=
  let path := h.workingDirectory.bytes ++ filename ++ blkInfix ++ decimal blockId
  let blockIdLen := if blockId.tdiv 10 = 0 then 1 else 2
  if path.length + 1 ≤ h.workingDirectory.bytes.length + filename.length + blockIdLen + 7 then .ok path
  else .error .undefined

/-- What the file holds goes over the buffer; there has to be a file. -/
def extReadBlock (h : Host) (filename : List UInt8) (blockId : Int) (buf : Bytes DFS_BLOCK_SIZE) :
    Outcome (Bytes DFS_BLOCK_SIZE) := do
  match h.files (← getBlockFilePath h filename blockId) with
  | some bytes => .ok (buf.patch 0 (bytes.take DFS_BLOCK_SIZE))
  | none => .error .undefined

def extWriteBlock (h : Host) (filename : List UInt8) (blockId : Int) (buf : Bytes DFS_BLOCK_SIZE) : Outcome Host := do
  let path ← getBlockFilePath h filename blockId
  .ok { h with files := Function.update h.files path (some buf.toList) }

/-- The answer to a request for a block; `buffer` is the local of that name. -/
def readBlock (h : Host) (request : DnReq) (buffer : Bytes DFS_BLOCK_SIZE) : Outcome BlockDesc := do
  let name ← cstr request.block.ownerName
  let buffer ← extReadBlock h name request.block.blockId buffer
  let ownerName ← strcpy BlockDesc.zero.ownerName 0 name
  let content ← strcpy BlockDesc.zero.content 0 (← cstr buffer)
  .ok { BlockDesc.zero with ownerName, dnId := h.datanodeId, blockId := request.block.blockId, content }

def createBlock (h : Host) (request : DnReq) : Outcome Host := do
  extWriteBlock h (← cstr request.block.ownerName) request.block.blockId request.block.content

/-- `requests_dispatcher` of a datanode. -/
def serve (h : Host) (request : DnReq) (buffer : Bytes DFS_BLOCK_SIZE) : Outcome (Option BlockDesc × Host) := do
  if request.opType = 0 then .ok (some (← readBlock h request buffer), h)
  else if request.opType = 1 then .ok (none, ← createBlock h request)
  else .ok (none, h)

/-! ### The network -/

/-- An address as `create_client_tcp_socket` takes it. -/
structure Address where
  ip : List UInt8
  port : Int
  deriving DecidableEq

/-- The datanode behind each address. -/
abbrev Hosts := Address → Host

def connect (block : BlockDesc) : Outcome Address := do
  .ok ⟨← cstr block.locIp, block.locPort⟩

structure Message where
  address : Address
  request : DnReq

def deliver (buffer : Bytes DFS_BLOCK_SIZE) (m : Message) (hosts : Hosts) : Outcome Hosts := do
  let (_, h) ← serve (hosts m.address) m.request buffer
  .ok (Function.update hosts m.address h)

/-! ### A client -/

/-- What a client that waits for a message gets. On a closed connection `recv` returns 0 for ever. -/
def receive {α : Type} (message : Option α) : Outcome α :=
  match message with
  | some a => .ok a
  | none => .error .spins

/-- The file a reply is about; a system status is shorter than the message that is waited for. -/
def queryResult (reply : Option Reply) : Outcome FileDesc :=
  receive (reply.bind fun r => match r with
    | .file fileInfo => some fileInfo
    | .status _ => none)

/-- The loop of `push_file`: `file` is what is left of the local file. -/
def pushBlocks (fileInfo : FileDesc) : (remaining count : Nat) → (file : List UInt8) → Outcome (List Message)
  | 0, _, _ => .ok []
  | remaining + 1, count, file => do
    let fileBlock ← fileInfo.block count
    let fileBlock := { fileBlock with content := fileBlock.content.patch 0 (file.take DFS_BLOCK_SIZE) }
    let address ← connect fileBlock
    .ok (⟨address, ⟨1, fileBlock⟩⟩ :: (← pushBlocks fileInfo remaining (count + 1) (file.drop DFS_BLOCK_SIZE)))

/-- The messages the client sends and the namenode afterwards. `request` is the local of that name. -/
def pushFile (n : Namenode) (fileBlock : Int → BlockDesc) (request : ClientReq) (localPath : CString) (file : List UInt8) :
    Outcome (List Message × Namenode) := do
  let fileName ← strcpy request.fileName 0 localPath.bytes
  let (reply, n) ← answer n ⟨fileName, toInt32 file.length, 1⟩ fileBlock
  let fileInfo ← queryResult reply
  .ok (← pushBlocks fileInfo fileInfo.blocknum.toNat 0 file, n)

/-- The loop of `modify_file`: `block_index` stays at the first block. -/
def modifyBlocks (fileInfo : FileDesc) (blockIndex : Int) : (remaining : Nat) → (file : List UInt8) → Outcome (List Message)
  | 0, _ => .ok []
  | remaining + 1, file => do
    let fileBlock ← fileInfo.block blockIndex
    let fileBlock := { fileBlock with content := fileBlock.content.patch 0 (file.take DFS_BLOCK_SIZE) }
    let address ← connect fileBlock
    .ok (⟨address, ⟨1, fileBlock⟩⟩ :: (← modifyBlocks fileInfo blockIndex remaining (file.drop DFS_BLOCK_SIZE)))

/-- The messages the client sends and the namenode afterwards; `file` is the local file. -/
def modifyFile (n : Namenode) (fileBlock : Int → BlockDesc) (filename : CString) (file : List UInt8)
    (fileSize startAddr endAddr : Int) : Outcome (List Message × Namenode) := do
  let fileName ← strcpy .zero 0 filename.bytes
  let (reply, n) ← answer n ⟨fileName, fileSize, 3⟩ fileBlock
  let fileInfo ← queryResult reply
  let startBlockIndex := startAddr.tdiv DFS_BLOCK_SIZE
  let endBlockIndex := endAddr.tdiv DFS_BLOCK_SIZE
  let blocksToModify := endBlockIndex - startBlockIndex + 1
  .ok (← modifyBlocks fileInfo startBlockIndex blocksToModify.toNat (file.drop startAddr.toNat), n)

/-- The loop of `pull_file`; `buffers` are the locals of the datanodes. -/
def pullBlocks (hosts : Hosts) (buffers : Nat → Bytes DFS_BLOCK_SIZE) (fileInfo : FileDesc) :
    (remaining count : Nat) → Outcome (List (Bytes DFS_BLOCK_SIZE))
  | 0, _ => .ok []
  | remaining + 1, count => do
    let fileBlock ← fileInfo.block count
    let address ← connect fileBlock
    let (reply, _) ← serve (hosts address) ⟨0, fileBlock⟩ (buffers count)
    let returnedBlock ← receive reply
    let content ← strcpy fileBlock.content 0 (← cstr returnedBlock.content)
    .ok (content :: (← pullBlocks hosts buffers fileInfo remaining (count + 1)))

/-- The local file that is written. -/
def pullFile (n : Namenode) (hosts : Hosts) (buffers : Nat → Bytes DFS_BLOCK_SIZE) (fileBlock : Int → BlockDesc)
    (request : ClientReq) (filename : CString) : Outcome (List UInt8) := do
  let fileName ← strcpy request.fileName 0 filename.bytes
  let (reply, _) ← answer n ⟨fileName, request.fileSize, 0⟩ fileBlock
  let fileInfo ← queryResult reply
  .ok ((← pullBlocks hosts buffers fileInfo fileInfo.blocknum.toNat 0).flatMap Bytes.toList)

end StorageStack.Dfs
