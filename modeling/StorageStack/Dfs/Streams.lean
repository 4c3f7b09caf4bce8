import StorageStack.Dfs.Wire

/-!
# The programs over bytes

The programs exchange messages as they lie in memory, one connection for each, and the kernel cuts them into
transfers. Runs of all programs give the same answers so as when whole messages are handed over. The transfers of a
connection that is closed behind its message need not end where the message ends for the receiver, but for the sender
they have to.
-/

namespace StorageStack.Dfs
open Lib CString Codec

/-! ### Whole messages -/

/-- The bytes of a port the other way round. -/
def htons (port : Int) : Int := ntohs port

/-- What one round of `heartbeat` does to the namenode. -/
def heartbeat (n : Namenode) (datanodeId datanodeListenPort : Int) (ip : IpString) : Outcome Namenode :=
  registerDatanode n ⟨datanodeId, htons datanodeListenPort⟩ ip

/-- The number in the answer; `request` is the local of that name. -/
def getSystemInfo (n : Namenode) (fileBlock : Int → BlockDesc) (request : ClientReq) : Outcome (Int × Namenode) := do
  let (reply, n) ← answer n { request with reqType := 2 } fileBlock
  match reply with
  | some (.status datanodeNum) => .ok (datanodeNum, n)
  | _ => .error .spins

/-- The namenode, the datanodes and the requests of clients that no datanode has handled yet. -/
structure Cluster (M : Type) where
  namenode : Namenode
  hosts : Hosts
  inFlight : List M

/-- One call of a program, or a datanode that takes one of the requests in flight. The locals that are used before all of
them is stored to are part of the job. -/
inductive Job where
  | heartbeat (datanodeId datanodeListenPort : Int) (ip : IpString)
  | push (fileBlock : Int → BlockDesc) (request : ClientReq) (localPath : CString) (file : List UInt8)
  | modify (fileBlock : Int → BlockDesc) (filename : CString) (file : List UInt8) (fileSize startAddr endAddr : Int)
  | pull (fileBlock : Int → BlockDesc) (request : ClientReq) (filename : CString) (buffers : Nat → Bytes DFS_BLOCK_SIZE)
  | info (fileBlock : Int → BlockDesc) (request : ClientReq)
  | deliver (place : Nat) (buffer : Bytes DFS_BLOCK_SIZE)

/-- What a client writes or reports. -/
inductive Result where
  | file (bytes : List UInt8)
  | system (datanodeNum : Int)
  deriving DecidableEq

def Cluster.sent {M : Type} (s : Cluster M) (messages : List M) (n : Namenode) : Cluster M :=
  { s with namenode := n, inFlight := s.inFlight ++ messages }

def Job.run : Job → Cluster Message → Outcome (List Result × Cluster Message)
  | .heartbeat datanodeId datanodeListenPort ip, s => do
    .ok ([], { s with namenode := ← Dfs.heartbeat s.namenode datanodeId datanodeListenPort ip })
  | .push fileBlock request localPath file, s => do
    let (messages, n) ← pushFile s.namenode fileBlock request localPath file
    .ok ([], s.sent messages n)
  | .modify fileBlock filename file fileSize startAddr endAddr, s => do
    let (messages, n) ← modifyFile s.namenode fileBlock filename file fileSize startAddr endAddr
    .ok ([], s.sent messages n)
  | .pull fileBlock request filename buffers, s => do
    .ok ([.file (← pullFile s.namenode s.hosts buffers fileBlock request filename)], s)
  | .info fileBlock request, s => do
    let (datanodeNum, n) ← getSystemInfo s.namenode fileBlock request
    .ok ([.system datanodeNum], { s with namenode := n })
  | .deliver place buffer, s =>
    match s.inFlight[place]? with
    | none => .ok ([], s)
    | some m => do .ok ([], { s with hosts := ← Dfs.deliver buffer m s.hosts, inFlight := s.inFlight.eraseIdx place })

/-! ### Bytes -/

/-- How the messages of one job cross their connections; those of a loop have one for each round. -/
structure Links where
  status : Link statusCodec.size
  request : Link clientReqCodec.size
  file : Link fileCodec.size
  system : Link systemStatusCodec.size
  block : Nat → Link dnReqCodec.size
  returned : Nat → Link blockCodec.size

structure Packet where
  address : Address
  bytes : List UInt8

namespace Wire

variable (links : Links)

def heartbeat (n : Namenode) (datanodeId datanodeListenPort : Int) (ip : IpString) : Outcome Namenode := do
  let stream ← links.status.send (statusCodec.encode ⟨datanodeId, htons datanodeListenPort⟩)
  registerDatanode n (statusCodec.decode (← links.status.receive stream)) ip

/-- What is on a connection before it is closed. -/
def reply : Option Reply → Outcome (List UInt8)
  | none => .ok []
  | some (.file queryResult) => links.file.send (fileCodec.encode queryResult)
  | some (.status datanodeNum) => links.system.send (systemStatusCodec.encode (datanodeNum, .zero))

/-- One round of the `mainLoop` of the namenode. -/
def accept (n : Namenode) (fileBlock : Int → BlockDesc) (stream : List UInt8) : Outcome (List UInt8 × Namenode) := do
  let request ← links.request.receive stream
  let (answered, n) ← answer n (clientReqCodec.decode request) fileBlock
  .ok (← reply links answered, n)

/-- What the calls of a client begin with. -/
def query (n : Namenode) (fileBlock : Int → BlockDesc) (request : ClientReq) : Outcome (FileDesc × Namenode) := do
  let stream ← links.request.send (clientReqCodec.encode request)
  let (stream, n) ← accept links n fileBlock stream
  .ok (fileCodec.decode (← links.file.receive stream), n)

def getSystemInfo (n : Namenode) (fileBlock : Int → BlockDesc) (request : ClientReq) : Outcome (Int × Namenode) := do
  let stream ← links.request.send (clientReqCodec.encode { request with reqType := 2 })
  let (stream, n) ← accept links n fileBlock stream
  .ok ((systemStatusCodec.decode (← links.system.receive stream)).1, n)

/-- One round of the `mainLoop` of a datanode. -/
def acceptBlock (round : Nat) (h : Host) (buffer : Bytes DFS_BLOCK_SIZE) (stream : List UInt8) :
    Outcome (List UInt8 × Host) := do
  let request ← (links.block round).receive stream
  let (returned, h) ← serve h (dnReqCodec.decode request) buffer
  match returned with
  | none => .ok ([], h)
  | some block => .ok (← (links.returned round).send (blockCodec.encode block), h)

def deliver (buffer : Bytes DFS_BLOCK_SIZE) (p : Packet) (hosts : Hosts) : Outcome Hosts := do
  let (_, h) ← acceptBlock links 0 (hosts p.address) buffer p.bytes
  .ok (Function.update hosts p.address h)

/-- The requests of a loop, from round `round` on. -/
def sendBlocks : (round : Nat) → List Message → Outcome (List Packet)
  | _, [] => .ok []
  | round, m :: messages => do
    let bytes ← (links.block round).send (dnReqCodec.encode m.request)
    .ok (⟨m.address, bytes⟩ :: (← sendBlocks (round + 1) messages))

def pushFile (n : Namenode) (fileBlock : Int → BlockDesc) (request : ClientReq) (localPath : CString) (file : List UInt8) :
    Outcome (List Packet × Namenode) := do
  let fileName ← strcpy request.fileName 0 localPath.bytes
  let (fileInfo, n) ← query links n fileBlock ⟨fileName, toInt32 file.length, 1⟩
  .ok (← sendBlocks links 0 (← pushBlocks fileInfo fileInfo.blocknum.toNat 0 file), n)

def modifyFile (n : Namenode) (fileBlock : Int → BlockDesc) (filename : CString) (file : List UInt8)
    (fileSize startAddr endAddr : Int) : Outcome (List Packet × Namenode) := do
  let fileName ← strcpy .zero 0 filename.bytes
  let (fileInfo, n) ← query links n fileBlock ⟨fileName, fileSize, 3⟩
  let startBlockIndex := startAddr.tdiv DFS_BLOCK_SIZE
  let endBlockIndex := endAddr.tdiv DFS_BLOCK_SIZE
  let blocksToModify := endBlockIndex - startBlockIndex + 1
  .ok (← sendBlocks links 0 (← modifyBlocks fileInfo startBlockIndex blocksToModify.toNat (file.drop startAddr.toNat)), n)

/-- The block that comes back. -/
def fetch (round : Nat) (h : Host) (fileBlock : BlockDesc) (buffer : Bytes DFS_BLOCK_SIZE) : Outcome BlockDesc := do
  let stream ← (links.block round).send (dnReqCodec.encode ⟨0, fileBlock⟩)
  let (stream, _) ← acceptBlock links round h buffer stream
  .ok (blockCodec.decode (← (links.returned round).receive stream))

def pullBlocks (hosts : Hosts) (buffers : Nat → Bytes DFS_BLOCK_SIZE) (fileInfo : FileDesc) :
    (remaining count : Nat) → Outcome (List (Bytes DFS_BLOCK_SIZE))
  | 0, _ => .ok []
  | remaining + 1, count => do
    let fileBlock ← fileInfo.block count
    let address ← connect fileBlock
    let returnedBlock ← fetch links count (hosts address) fileBlock (buffers count)
    let content ← strcpy fileBlock.content 0 (← cstr returnedBlock.content)
    .ok (content :: (← pullBlocks hosts buffers fileInfo remaining (count + 1)))

def pullFile (n : Namenode) (hosts : Hosts) (buffers : Nat → Bytes DFS_BLOCK_SIZE) (fileBlock : Int → BlockDesc)
    (request : ClientReq) (filename : CString) : Outcome (List UInt8) := do
  let fileName ← strcpy request.fileName 0 filename.bytes
  let (fileInfo, _) ← query links n fileBlock ⟨fileName, request.fileSize, 0⟩
  .ok ((← pullBlocks links hosts buffers fileInfo fileInfo.blocknum.toNat 0).flatMap Bytes.toList)

def run : Job → Cluster Packet → Outcome (List Result × Cluster Packet)
  | .heartbeat datanodeId datanodeListenPort ip, s => do
    .ok ([], { s with namenode := ← heartbeat links s.namenode datanodeId datanodeListenPort ip })
  | .push fileBlock request localPath file, s => do
    let (packets, n) ← pushFile links s.namenode fileBlock request localPath file
    .ok ([], s.sent packets n)
  | .modify fileBlock filename file fileSize startAddr endAddr, s => do
    let (packets, n) ← modifyFile links s.namenode fileBlock filename file fileSize startAddr endAddr
    .ok ([], s.sent packets n)
  | .pull fileBlock request filename buffers, s => do
    .ok ([.file (← pullFile links s.namenode s.hosts buffers fileBlock request filename)], s)
  | .info fileBlock request, s => do
    let (datanodeNum, n) ← getSystemInfo links s.namenode fileBlock request
    .ok ([.system datanodeNum], { s with namenode := n })
  | .deliver place buffer, s =>
    match s.inFlight[place]? with
    | none => .ok ([], s)
    | some p => do .ok ([], { s with hosts := ← deliver links buffer p s.hosts, inFlight := s.inFlight.eraseIdx place })

end Wire

/-! ### The same by bytes -/

def Message.packet (m : Message) : Packet := ⟨m.address, dnReqCodec.encode m.request⟩

def Cluster.packed (s : Cluster Message) : Cluster Packet := ⟨s.namenode, s.hosts, s.inFlight.map Message.packet⟩

/-- All values are of the types of the fields they are in. -/
structure Cluster.Sized (s : Cluster Message) : Prop where
  namenode : s.namenode.Sized
  hosts : ∀ a, IsInt32 (s.hosts a).datanodeId
  inFlight : ∀ m ∈ s.inFlight, dnReqCodec.Valid m.request

def Job.Sized : Job → Prop
  | .heartbeat datanodeId _ _ => IsInt32 datanodeId
  | .push .. => True
  | .modify _ _ _ fileSize _ _ => IsInt32 fileSize
  | .pull _ request _ _ => IsInt32 request.fileSize
  | .info _ request => IsInt32 request.fileSize
  | .deliver .. => True

/-- What the namenode puts on a connection. -/
def replyBytes : Option Reply → List UInt8
  | none => []
  | some (.file queryResult) => fileCodec.encode queryResult
  | some (.status datanodeNum) => systemStatusCodec.encode (datanodeNum, .zero)

variable {links : Links} {n n' : Namenode} {fileBlock : Int → BlockDesc} {r : ClientReq} {h : Host}
  {buffer : Bytes DFS_BLOCK_SIZE}

theorem reply_ok (answered : Option Reply) : Wire.reply links answered = .ok (replyBytes answered) := by
  cases answered with
  | none => rfl
  | some answered =>
    cases answered with
    | file queryResult => exact links.file.send_ok (fileCodec.length_encode _)
    | status datanodeNum => exact links.system.send_ok (systemStatusCodec.length_encode _)

theorem accept_bytes (valid : clientReqCodec.Valid r) : Wire.accept links n fileBlock (clientReqCodec.encode r) =
    (answer n r fileBlock >>= fun p => .ok (replyBytes p.1, p.2)) := by
  rw [Wire.accept, links.request.receive_ok (clientReqCodec.length_encode r), ok_bind, clientReqCodec.decode_encode r valid]
  cases answer n r fileBlock with
  | error e => rfl
  | ok p =>
    rw [ok_bind, ok_bind]
    dsimp only
    rw [reply_ok, ok_bind]

/-- A client waits for ever unless there is a whole image for it. -/
theorem query_bytes (sized : n.Sized) (fileSize : IsInt32 r.fileSize) (reqType : IsInt32 r.reqType) :
    Wire.query links n fileBlock r = (answer n r fileBlock >>= fun p => queryResult p.1 >>= fun image => .ok (image, p.2)) := by
  rw [Wire.query, links.request.send_ok (clientReqCodec.length_encode r), ok_bind,
    accept_bytes ((valid_clientReq r).mpr ⟨fileSize, reqType⟩)]
  cases run : answer n r fileBlock with
  | error e => rfl
  | ok p =>
    obtain ⟨answered, n'⟩ := p
    have fits := (answer_sized sized fileSize run).2
    rw [ok_bind, ok_bind, ok_bind]
    dsimp only
    cases answered with
    | none =>
      rw [links.file.receive_short (by decide)]
      rfl
    | some answered =>
      cases answered with
      | file image =>
        rw [replyBytes, links.file.receive_ok (fileCodec.length_encode image), ok_bind,
          fileCodec.decode_encode image (fits _ rfl)]
        rfl
      | status datanodeNum =>
        have length : (replyBytes (some (.status datanodeNum))).length = 2804 := systemStatusCodec.length_encode _
        have short : (replyBytes (some (.status datanodeNum))).length < fileCodec.size := by
          rw [length]
          decide
        rw [links.file.receive_short short]
        rfl

theorem getSystemInfo_bytes (sized : n.Sized) (fileSize : IsInt32 r.fileSize) :
    Wire.getSystemInfo links n fileBlock r = getSystemInfo n fileBlock r := by
  have whole : clientReqCodec.Valid { r with reqType := 2 } :=
    (valid_clientReq _).mpr ⟨fileSize, @isInt32_small 2 (by decide) (by decide)⟩
  have answered : answer n { r with reqType := 2 } fileBlock = .ok (some (.status n.dncnt), n) := rfl
  rw [Wire.getSystemInfo, getSystemInfo, links.request.send_ok (clientReqCodec.length_encode _), ok_bind, accept_bytes whole,
    answered, ok_bind, ok_bind, ok_bind]
  dsimp only
  have valid : systemStatusCodec.Valid (n.dncnt, .zero) := ⟨sized.isInt32_dncnt, trivial⟩
  rw [replyBytes, links.system.receive_ok (systemStatusCodec.length_encode _), ok_bind, systemStatusCodec.decode_encode _ valid]

theorem heartbeat_bytes {datanodeId datanodeListenPort : Int} {ip : IpString} (fits : IsInt32 datanodeId) :
    Wire.heartbeat links n datanodeId datanodeListenPort ip = heartbeat n datanodeId datanodeListenPort ip := by
  have port : IsInt32 (htons datanodeListenPort) := isInt32_small (Int.natCast_nonneg _) (Int.ofNat_lt.mpr (ntohs_lt _))
  have valid : statusCodec.Valid ⟨datanodeId, htons datanodeListenPort⟩ := ⟨fits, port⟩
  rw [Wire.heartbeat, links.status.send_ok (statusCodec.length_encode _), ok_bind,
    links.status.receive_ok (statusCodec.length_encode _), ok_bind, statusCodec.decode_encode _ valid, heartbeat]

/-! ### Datanodes -/

def returnedBytes : Option BlockDesc → List UInt8
  | none => []
  | some block => blockCodec.encode block

theorem acceptBlock_bytes {q : DnReq} (round : Nat) (valid : dnReqCodec.Valid q) :
    Wire.acceptBlock links round h buffer (dnReqCodec.encode q) =
      (serve h q buffer >>= fun p => .ok (returnedBytes p.1, p.2)) := by
  rw [Wire.acceptBlock, (links.block round).receive_ok (dnReqCodec.length_encode q), ok_bind, dnReqCodec.decode_encode q valid]
  cases serve h q buffer with
  | error e => rfl
  | ok p =>
    obtain ⟨returned, h'⟩ := p
    rw [ok_bind, ok_bind]
    dsimp only
    cases returned with
    | none => rfl
    | some block =>
      dsimp only
      rw [(links.returned round).send_ok (blockCodec.length_encode block), ok_bind, returnedBytes]

theorem deliver_bytes {m : Message} {hosts : Hosts} (valid : dnReqCodec.Valid m.request) :
    Wire.deliver links buffer m.packet hosts = deliver buffer m hosts := by
  rw [Wire.deliver, Message.packet, deliver]
  dsimp only
  rw [acceptBlock_bytes 0 valid]
  cases serve (hosts m.address) m.request buffer with
  | error e => rfl
  | ok p => rfl

theorem fetch_bytes {fileBlock : BlockDesc} (round : Nat) (id : IsInt32 h.datanodeId) (valid : blockCodec.Valid fileBlock) :
    Wire.fetch links round h fileBlock buffer = (serve h ⟨0, fileBlock⟩ buffer >>= fun p => receive p.1) := by
  have request : dnReqCodec.Valid ⟨0, fileBlock⟩ := (valid_dnReq _).mpr ⟨isInt32_zero, valid⟩
  rw [Wire.fetch, (links.block round).send_ok (dnReqCodec.length_encode _), ok_bind, acceptBlock_bytes round request]
  cases run : serve h ⟨0, fileBlock⟩ buffer with
  | error e => rfl
  | ok p =>
    obtain ⟨returned, h'⟩ := p
    have fits := (serve_sized id request run).2
    rw [ok_bind, ok_bind, ok_bind]
    dsimp only
    cases returned with
    | none =>
      rw [returnedBytes, (links.returned round).receive_short (by decide)]
      rfl
    | some block =>
      rw [returnedBytes, (links.returned round).receive_ok (blockCodec.length_encode block), ok_bind,
        blockCodec.decode_encode block (fits _ rfl)]
      rfl

/-! ### Calls -/

theorem sendBlocks_bytes (round : Nat) (messages : List Message) :
    Wire.sendBlocks links round messages = .ok (messages.map Message.packet) := by
  induction messages generalizing round with
  | nil => rfl
  | cons m messages ih =>
    rw [Wire.sendBlocks, (links.block round).send_ok (dnReqCodec.length_encode m.request), ok_bind, ih, ok_bind]
    rfl

theorem pushFile_bytes {localPath : CString} {file : List UInt8} (sized : n.Sized) :
    Wire.pushFile links n fileBlock r localPath file =
      (pushFile n fileBlock r localPath file >>= fun p => .ok (p.1.map Message.packet, p.2)) := by
  rw [Wire.pushFile, pushFile]
  cases strcpy r.fileName 0 localPath.bytes with
  | error e => rfl
  | ok fileName =>
    rw [ok_bind, ok_bind, query_bytes sized (isInt32_toInt32 _) isInt32_one]
    cases answer n ⟨fileName, toInt32 file.length, 1⟩ fileBlock with
    | error e => rfl
    | ok p =>
      obtain ⟨answered, n'⟩ := p
      rw [ok_bind, ok_bind]
      dsimp only
      cases queryResult answered with
      | error e => rfl
      | ok image =>
        rw [ok_bind, ok_bind, ok_bind]
        dsimp only
        cases pushBlocks image image.blocknum.toNat 0 file with
        | error e => rfl
        | ok messages =>
          rw [ok_bind, ok_bind, sendBlocks_bytes]
          rfl

theorem modifyFile_bytes {filename : CString} {file : List UInt8} {fileSize startAddr endAddr : Int} (sized : n.Sized)
    (fits : IsInt32 fileSize) : Wire.modifyFile links n fileBlock filename file fileSize startAddr endAddr =
      (modifyFile n fileBlock filename file fileSize startAddr endAddr >>= fun p => .ok (p.1.map Message.packet, p.2)) := by
  rw [Wire.modifyFile, modifyFile]
  cases strcpy (.zero : Bytes 256) 0 filename.bytes with
  | error e => rfl
  | ok fileName =>
    rw [ok_bind, ok_bind, query_bytes sized fits (@isInt32_small 3 (by decide) (by decide))]
    cases answer n ⟨fileName, fileSize, 3⟩ fileBlock with
    | error e => rfl
    | ok p =>
      obtain ⟨answered, n'⟩ := p
      rw [ok_bind, ok_bind]
      dsimp only
      cases queryResult answered with
      | error e => rfl
      | ok image =>
        rw [ok_bind, ok_bind, ok_bind]
        dsimp only
        cases modifyBlocks image (startAddr.tdiv DFS_BLOCK_SIZE)
          (endAddr.tdiv DFS_BLOCK_SIZE - startAddr.tdiv DFS_BLOCK_SIZE + 1).toNat (file.drop startAddr.toNat) with
        | error e => rfl
        | ok messages =>
          rw [ok_bind, ok_bind, sendBlocks_bytes]
          rfl

theorem pullBlocks_bytes {hosts : Hosts} {buffers : Nat → Bytes DFS_BLOCK_SIZE} {image : FileDesc} {remaining count : Nat}
    (ids : ∀ a, IsInt32 (hosts a).datanodeId) (valid : fileCodec.Valid image) :
    Wire.pullBlocks links hosts buffers image remaining count = pullBlocks hosts buffers image remaining count := by
  induction remaining generalizing count with
  | zero => rfl
  | succ remaining ih =>
    rw [Wire.pullBlocks, pullBlocks]
    cases found : image.block count with
    | error e => rfl
    | ok block =>
      rw [ok_bind, ok_bind]
      cases connect block with
      | error e => rfl
      | ok address =>
        rw [ok_bind, ok_bind, fetch_bytes count (ids address) (block_valid valid found), ih]
        cases serve (hosts address) ⟨0, block⟩ (buffers count) with
        | error e => rfl
        | ok p => rfl

/-- The image a client gets fits, and so does what the namenode keeps. -/
theorem query_sized (r : ClientReq) {answered : Option Reply} {image : FileDesc} (sized : n.Sized)
    (fileSize : IsInt32 r.fileSize) (run : answer n r fileBlock = .ok (answered, n')) (got : queryResult answered = .ok image) :
    n'.Sized ∧ fileCodec.Valid image := by
  obtain ⟨sized', fits⟩ := answer_sized sized fileSize run
  cases answered with
  | none => cases got
  | some answered =>
    cases answered with
    | file queryResult =>
      obtain rfl := Except.ok.inj got
      exact ⟨sized', fits _ rfl⟩
    | status datanodeNum => cases got

theorem pullFile_bytes {hosts : Hosts} {buffers : Nat → Bytes DFS_BLOCK_SIZE} {filename : CString} (sized : n.Sized)
    (ids : ∀ a, IsInt32 (hosts a).datanodeId) (fileSize : IsInt32 r.fileSize) :
    Wire.pullFile links n hosts buffers fileBlock r filename = pullFile n hosts buffers fileBlock r filename := by
  rw [Wire.pullFile, pullFile]
  cases strcpy r.fileName 0 filename.bytes with
  | error e => rfl
  | ok fileName =>
    rw [ok_bind, ok_bind, @query_bytes links n fileBlock ⟨fileName, r.fileSize, 0⟩ sized fileSize isInt32_zero]
    cases run : answer n ⟨fileName, r.fileSize, 0⟩ fileBlock with
    | error e => rfl
    | ok p =>
      obtain ⟨answered, n'⟩ := p
      rw [ok_bind, ok_bind]
      dsimp only
      cases got : queryResult answered with
      | error e => rfl
      | ok image =>
        obtain ⟨-, valid⟩ := query_sized ⟨fileName, r.fileSize, 0⟩ sized fileSize run got
        rw [ok_bind, ok_bind, ok_bind]
        dsimp only
        rw [pullBlocks_bytes ids valid]

/-! ### Runs -/

variable {s s' : Cluster Message} {job : Job} {results : List Result}

theorem Cluster.packed_sent (s : Cluster Message) (messages : List Message) (n : Namenode) :
    (s.sent messages n).packed = s.packed.sent (messages.map Message.packet) n := by
  rw [Cluster.packed, Cluster.sent, List.map_append]
  rfl

theorem Job.run_bytes (links : Links) (sized : s.Sized) (fits : job.Sized) :
    Wire.run links job s.packed = (job.run s >>= fun p => .ok (p.1, p.2.packed)) := by
  cases job with
  | heartbeat datanodeId datanodeListenPort ip =>
    rw [Wire.run, Job.run, Cluster.packed, heartbeat_bytes fits]
    cases Dfs.heartbeat s.namenode datanodeId datanodeListenPort ip with
    | error e => rfl
    | ok n => rfl
  | push fileBlock request localPath file =>
    rw [Wire.run, Job.run, Cluster.packed, pushFile_bytes sized.namenode]
    cases pushFile s.namenode fileBlock request localPath file with
    | error e => rfl
    | ok p =>
      rw [ok_bind, ok_bind, ok_bind, ok_bind, Cluster.packed_sent]
      rfl
  | modify fileBlock filename file fileSize startAddr endAddr =>
    rw [Wire.run, Job.run, Cluster.packed, modifyFile_bytes sized.namenode fits]
    cases modifyFile s.namenode fileBlock filename file fileSize startAddr endAddr with
    | error e => rfl
    | ok p =>
      rw [ok_bind, ok_bind, ok_bind, ok_bind, Cluster.packed_sent]
      rfl
  | pull fileBlock request filename buffers =>
    rw [Wire.run, Job.run, Cluster.packed, pullFile_bytes sized.namenode sized.hosts fits]
    cases pullFile s.namenode s.hosts buffers fileBlock request filename with
    | error e => rfl
    | ok file => rfl
  | info fileBlock request =>
    rw [Wire.run, Job.run, Cluster.packed, getSystemInfo_bytes sized.namenode fits]
    cases getSystemInfo s.namenode fileBlock request with
    | error e => rfl
    | ok p => rfl
  | deliver place buffer =>
    rw [Wire.run, Job.run, Cluster.packed]
    dsimp only
    rw [List.getElem?_map]
    cases found : s.inFlight[place]? with
    | none => rfl
    | some m =>
      rw [Option.map_some]
      dsimp only
      rw [deliver_bytes (sized.inFlight m (List.mem_of_getElem? found))]
      cases Dfs.deliver buffer m s.hosts with
      | error e => rfl
      | ok hosts => rw [ok_bind, ok_bind, ok_bind, Cluster.packed, List.eraseIdx_map]

theorem Cluster.Sized.sent {messages : List Message} (sized : s.Sized) (namenode : n.Sized)
    (valid : ∀ m ∈ messages, dnReqCodec.Valid m.request) : (s.sent messages n).Sized := by
  refine ⟨namenode, sized.hosts, fun m member => ?_⟩
  rcases List.mem_append.mp member with old | new
  · exact sized.inFlight m old
  · exact valid m new

/-- Every job keeps its values in the types of their fields. -/
theorem Job.run_sized (sized : s.Sized) (fits : job.Sized) (run : job.run s = .ok (results, s')) : s'.Sized := by
  cases job with
  | heartbeat datanodeId datanodeListenPort ip =>
    obtain ⟨n, registered, run⟩ := bind_ok run
    obtain ⟨-, rfl⟩ := Prod.mk.inj (Except.ok.inj run)
    exact ⟨registerDatanode_sized sized.namenode registered, sized.hosts, sized.inFlight⟩
  | push fileBlock request localPath file =>
    obtain ⟨⟨messages, n⟩, pushed, run⟩ := bind_ok run
    obtain ⟨-, rfl⟩ := Prod.mk.inj (Except.ok.inj run)
    obtain ⟨fileName, -, pushed⟩ := bind_ok pushed
    obtain ⟨⟨reply, n'⟩, answered, pushed⟩ := bind_ok pushed
    obtain ⟨image, got, pushed⟩ := bind_ok pushed
    obtain ⟨messages', blocks, pushed⟩ := bind_ok pushed
    obtain ⟨rfl, rfl⟩ := Prod.mk.inj (Except.ok.inj pushed)
    obtain ⟨sized', valid⟩ := query_sized _ sized.namenode (isInt32_toInt32 _) answered got
    exact sized.sent sized' (pushBlocks_valid valid blocks)
  | modify fileBlock filename file fileSize startAddr endAddr =>
    obtain ⟨⟨messages, n⟩, modified, run⟩ := bind_ok run
    obtain ⟨-, rfl⟩ := Prod.mk.inj (Except.ok.inj run)
    obtain ⟨fileName, -, modified⟩ := bind_ok modified
    obtain ⟨⟨reply, n'⟩, answered, modified⟩ := bind_ok modified
    obtain ⟨image, got, modified⟩ := bind_ok modified
    obtain ⟨messages', blocks, modified⟩ := bind_ok modified
    obtain ⟨rfl, rfl⟩ := Prod.mk.inj (Except.ok.inj modified)
    obtain ⟨sized', valid⟩ := query_sized ⟨fileName, fileSize, 3⟩ sized.namenode fits answered got
    exact sized.sent sized' (modifyBlocks_valid valid blocks)
  | pull fileBlock request filename buffers =>
    obtain ⟨file, -, run⟩ := bind_ok run
    obtain ⟨-, rfl⟩ := Prod.mk.inj (Except.ok.inj run)
    exact sized
  | info fileBlock request =>
    obtain ⟨⟨datanodeNum, n⟩, asked, run⟩ := bind_ok run
    obtain ⟨-, rfl⟩ := Prod.mk.inj (Except.ok.inj run)
    obtain ⟨-, rfl⟩ := Prod.mk.inj (Except.ok.inj asked)
    exact ⟨sized.namenode, sized.hosts, sized.inFlight⟩
  | deliver place buffer =>
    rw [Job.run] at run
    cases found : s.inFlight[place]? with
    | none =>
      rw [found] at run
      obtain ⟨-, rfl⟩ := Prod.mk.inj (Except.ok.inj run)
      exact sized
    | some m =>
      rw [found] at run
      obtain ⟨hosts, delivered, run⟩ := bind_ok run
      obtain ⟨-, rfl⟩ := Prod.mk.inj (Except.ok.inj run)
      obtain ⟨⟨returned, h'⟩, served, delivered⟩ := bind_ok delivered
      obtain rfl := Except.ok.inj delivered
      have valid := sized.inFlight m (List.mem_of_getElem? found)
      have kept := (serve_sized (sized.hosts m.address) valid served).1
      refine ⟨sized.namenode, fun a => ?_, fun m' member => sized.inFlight m' (List.mem_of_mem_eraseIdx member)⟩
      dsimp only
      by_cases here : a = m.address
      · rw [here, Function.update_self, kept]
        exact sized.hosts m.address
      · rw [Function.update_of_ne here]
        exact sized.hosts a

/-- Whatever transfers the kernel makes of the messages, and in whatever order the datanodes take their requests, the
programs give the same answers, wait for ever in the same calls and leave their objects in the same calls as when they
hand over whole messages. -/
theorem streams_answer {jobs : List (Links × Job)} (sized : s.Sized) (fits : ∀ j ∈ jobs, j.2.Sized) :
    answers (fun j => Wire.run j.1 j.2) jobs s.packed = answers (fun j => j.2.run) jobs s :=
  answers_image Cluster.packed Cluster.Sized (fun j _ sized fits => Job.run_bytes j.1 sized fits)
    (fun _ _ _ _ sized fits run => Job.run_sized sized fits run) sized fits

theorem bytewise_transfers (size : Nat) : Transfers size (List.replicate size 1) := by
  constructor
  · intro n member
    obtain ⟨some, rfl⟩ := List.mem_replicate.mp member
    omega
  · rw [List.sum_replicate, nsmul_one]

theorem bytewise_ends (size : Nat) : EndsAt size (List.replicate size 1) := by
  refine ⟨size, ?_⟩
  rw [List.take_of_length_le (by rw [List.length_replicate]), List.sum_replicate, nsmul_one]

/-- Every transfer has one byte. -/
def Link.bytewise (size : Nat) : Link size where
  buffer := .zero
  sent := List.replicate size 1
  ready := List.replicate size 1
  sends := bytewise_transfers size
  receives := bytewise_transfers size
  whole := bytewise_ends size

def bytewise : Links :=
  ⟨.bytewise _, .bytewise _, .bytewise _, .bytewise _, fun _ => .bytewise _, fun _ => .bytewise _⟩

def oneOfEach : List (Links × Job) := List.map (fun j => (bytewise, j))
  [.heartbeat 1 8000 loopback, .push (fun _ => .zero) ⟨.zero, 0, 0⟩ fileName [7], .info (fun _ => .zero) ⟨.zero, 0, 0⟩,
    .deliver 0 .zero, .pull (fun _ => .zero) ⟨.zero, 0, 0⟩ fileName fun _ => .zero]

theorem initial_sized : Cluster.Sized ⟨.initial, emptyHosts, []⟩ :=
  ⟨sized_initial, fun _ => isInt32_one, fun _ member => by cases member⟩

theorem oneOfEach_streams : answers (fun j => Wire.run j.1 j.2) oneOfEach (Cluster.packed ⟨.initial, emptyHosts, []⟩) =
    .ok [.system 1, .file (7 :: List.replicate 1023 0)] := by
  refine (streams_answer initial_sized fun j member => ?_).trans (by decide +kernel)
  obtain ⟨job, listed, rfl⟩ := List.mem_map.mp member
  simp only [List.mem_cons, List.not_mem_nil, or_false] at listed
  rcases listed with rfl | rfl | rfl | rfl | rfl
  · exact isInt32_one
  · trivial
  · exact isInt32_zero
  · trivial
  · exact isInt32_zero

end StorageStack.Dfs
