import StorageStack.Lib.Buffer
import StorageStack.Sfs.Layout

/-!
# The file system calls

The calls of `fs.c` as functions on the state. A loop that follows block ids gets `steps` iterations:
ids have 32 bits, so a walk that needs more has come back to a block it saw and never ends. Locals that
are used before anything stores to them are parameters. The messages the calls print are left out.
-/

namespace StorageStack.Sfs
open Lib CString

def steps : Nat := 4294967296

/-! ### Free blocks -/

def sfsFlushFreemap (s : State) : State := { s with disk := s.disk.write 1 s.freemap }

/-- The first clear bit of an entry, from `count` on. -/
def findBit (bitmap : Nat) : (remaining count : Nat) → Option Nat
  | 0, _ => none
  | remaining + 1, count =>
    let mask := 1 <<< count
    if bitmap &&& mask = mask then findBit bitmap remaining (count + 1) else some count

/-- The loop over the entries of one freemap block. Its bound counts bytes, the array has 128 entries. -/
def findEntry (freemap : Block) : (remaining fmByte : Nat) → Outcome (Option (Nat × Nat))
  | 0, _ => .ok none
  | remaining + 1, fmByte =>
    if fmByte < 128 then
      let bitmap := freemap.word fmByte
      if bitmap ^^^ 0xffffffff ≠ 0 then
        match findBit bitmap 32 0 with
        | some count => .ok (some (fmByte, count))
        | none => findEntry freemap remaining (fmByte + 1)
      else findEntry freemap remaining (fmByte + 1)
    else .error .undefined

/-- Mark a block, flush the freemap and clear the block's contents. -/
def takeBlock (s : State) (fmByte count : Nat) : Nat × State :=
  let freemap := s.freemap.setWord fmByte (s.freemap.word fmByte ||| 1 <<< count)
  let s := sfsFlushFreemap { s with freemap }
  let freeBlockId := fmByte * 32 + count
  (freeBlockId, { s with disk := s.disk.write freeBlockId .zero })

/-- The loop over the freemap blocks. -/
def allocFrom : (remaining fmBlk : Nat) → State → Outcome (Nat × State)
  | 0, _, s => .ok (0, s)
  | remaining + 1, fmBlk, s => do
    let s := { s with freemap := s.disk.read (fmBlk + 1) }
    match ← findEntry s.freemap 512 0 with
    | some (fmByte, count) => .ok (takeBlock s fmByte count)
    | none => allocFrom remaining (fmBlk + 1) s

def sfsAllocBlock (s : State) : Outcome (Nat × State) := allocFrom (nfreemapBlocks s.sb) 0 s

def sfsFreeBlock (s : State) (bid : Nat) : Outcome State :=
  let freemap := s.disk.read (bid / 4096 + 1)
  if bid / 32 < 128 then
    let bitmap := freemap.word (bid / 32) &&& (0xffffffff ^^^ 1 <<< (bid % 32))
    .ok (sfsFlushFreemap { s with freemap := freemap.setWord (bid / 32) bitmap })
  else .error .undefined

/-! ### Formatting and loading -/

def formatted (sb : Block) : Block := (((sb.setWord 0 SFS_MAGIC).setWord 1 1024).setWord 2 1).setWord 3 0

def sfsMkfs (s : State) : State :=
  let sb := formatted s.sb
  let fdtable := fun i => { s.fdtable i with valid := 0 }
  let disk := (s.disk.write 0 sb).write (nblocks sb) .zero
  let freemap := Bytes.zero.setWord 0 0x3
  { sb := .zero, freemap, fdtable, disk := disk.write 1 freemap }

def sfsPrintInfo (s : State) : State := { s with sb := s.disk.read 0 }

def sfsReloadfs (s : State) : State := { s with sb := s.disk.read 0, freemap := s.disk.read 1 }

/-! ### Directories -/

def findDirFrom (d : Image) (dirname : CString) : (fuel dirBid : Nat) → Outcome Nat
  | 0, _ => .error .spins
  | fuel + 1, dirBid =>
    if dirBid = 0 then .ok 0
    else do
      let dir := d.read dirBid
      if ← strcmpEq (dirName dir) dirname.bytes then .ok dirBid
      else findDirFrom d dirname fuel (nextDir dir)

def sfsFindDir (s : State) (dirname : CString) : Outcome Nat :=
  findDirFrom s.disk dirname steps (firstDir s.sb)

/-- The loop of `sfs_mkdir` that links the new block behind the last directory. -/
def linkLast (d : Image) (newBid : Nat) : (fuel nextDirId : Nat) → Outcome Image
  | 0, _ => .error .spins
  | fuel + 1, nextDirId =>
    if nextDirId = 0 then .ok d
    else
      let dir := d.read nextDirId
      if nextDir dir = 0 then .ok (d.write nextDirId (setNextDir dir newBid))
      else linkLast d newBid fuel (nextDir dir)

/-- The new block becomes the first directory or the successor of the last one. -/
def linkDir (s : State) (newBid : Nat) : Outcome State :=
  if firstDir s.sb = 0 then
    let sb := setFirstDir s.sb newBid
    .ok { s with sb, disk := s.disk.write 0 sb }
  else do .ok { s with disk := ← linkLast s.disk newBid steps (firstDir s.sb) }

/-- The contents of a new directory block, on top of what the local held. -/
def newDir (tempDir : Block) (dirname : CString) : Outcome Block := do
  let tempDir ← strcpy (setNextDir tempDir 0) 4 dirname.bytes
  .ok (tempDir.patch 124 (List.replicate 388 0))

/-- `sizeof(dirname)` is the size of a pointer, so the check before this refuses no name. -/
def sfsMkdir (s : State) (tempDir : Block) (dirname : CString) : Outcome (Int × State) := do
  if (← sfsFindDir s dirname) ≠ 0 then .ok (-1, s)
  else do
    let (newBid, s) ← sfsAllocBlock s
    let s ← linkDir s newBid
    let tempDir ← newDir tempDir dirname
    .ok (0, { s with disk := s.disk.write newBid tempDir })

/-- The loop of `sfs_rmdir`: the block before `dirBid` gets the block after it as its successor. -/
def unlinkDir (d : Image) (dirBid : Nat) : (fuel nextDirId : Nat) → Outcome Image
  | 0, _ => .error .spins
  | fuel + 1, currentDir =>
    if currentDir = dirBid then .ok d
    else
      let nextDirId := nextDir (d.read currentDir)
      let d :=
        if nextDirId = dirBid then
          d.write currentDir (setNextDir (d.read currentDir) (nextDir (d.read nextDirId)))
        else d
      unlinkDir d dirBid fuel nextDirId

def sfsRmdir (s : State) (dirname : CString) : Outcome (Int × State) := do
  let dirBid ← sfsFindDir s dirname
  if dirBid = 0 ∨ firstDir s.sb = 0 then .ok (-1, s)
  else do
    let s ← sfsFreeBlock s dirBid
    let head := firstDir s.sb
    let s :=
      if head = dirBid then
        let sb := setFirstDir (s.disk.read 0) (nextDir (s.disk.read head))
        { s with sb, disk := s.disk.write 0 sb }
      else s
    .ok (0, { s with disk := ← unlinkDir s.disk dirBid steps head })

/-- How many directories the loop of `sfs_lsdir` meets from `dirBid` on. -/
def countDirs (d : Image) : (fuel dirBid : Nat) → Outcome Nat
  | 0, _ => .error .spins
  | fuel + 1, dirBid =>
    if dirBid = 0 then .ok 0 else do .ok ((← countDirs d fuel (nextDir (d.read dirBid))) + 1)

def sfsLsdir (s : State) : Outcome (Int × State) := do
  let s := { s with sb := s.disk.read 0 }
  let numDir ← countDirs s.disk steps (firstDir s.sb)
  .ok (numDir, s)

def countSlots (dir : Block) : Nat := ((List.range SFS_DB_NINODES).filter (inodes dir · ≠ 0)).length

def countFiles (d : Image) : (fuel dirBid : Nat) → Outcome Nat
  | 0, _ => .error .spins
  | fuel + 1, dirBid =>
    if dirBid = 0 then .ok 0
    else do .ok (countSlots (d.read dirBid) + (← countFiles d fuel (nextDir (d.read dirBid))))

def sfsLs (s : State) : Outcome (Int × State) := do
  let s := { s with sb := s.disk.read 0 }
  let numFiles ← countFiles s.disk steps (firstDir s.sb)
  .ok (numFiles, s)

/-! ### Opening, closing and removing files -/

def findFd (s : State) : Option (Fin 32) := (List.finRange 32).find? (fun fd => (s.fdtable fd).valid = 0)

/-- What the slot loop of `sfs_open` ends with. `inode` is the local of that name. -/
inductive Scan where
  | found (inodeBid : Nat) (inode : Block)
  | absent (freeInode : Int) (inode : Block)

/-- The slot loop of `sfs_open`, with `count` slots done. -/
def scanSlots (d : Image) (dir : Block) (name : CString) :
    (remaining count : Nat) → (freeInode : Int) → (inode : Block) → Outcome Scan
  | 0, _, freeInode, inode => .ok (.absent freeInode inode)
  | remaining + 1, count, freeInode, inode =>
    let inodeBid := inodes dir count
    if inodeBid = 0 then
      scanSlots d dir name remaining (count + 1) (if freeInode = -1 then count else freeInode) inode
    else do
      let inode := d.read inodeBid
      if ← strcmpEq (fileName inode) name.bytes then .ok (.found inodeBid inode)
      else scanSlots d dir name remaining (count + 1) freeInode inode

def createFile (s : State) (dirBid : Nat) (dir : Block) (freeInode : Int) (inode : Block) (name : CString) :
    Outcome (Nat × Block × State) := do
  let (newInodeBid, s) ← sfsAllocBlock s
  let dir ← setInodes dir freeInode newInodeBid
  let s := { s with disk := s.disk.write dirBid dir }
  let inode ← strcpy inode 8 name.bytes
  let (newFrameBid, s) ← sfsAllocBlock s
  let inode := setSize (setFirstFrame inode newFrameBid) 0
  let s := { s with disk := s.disk.write newInodeBid inode }
  let newFrame := s.disk.read newFrameBid
  let (newContentBid, s) ← sfsAllocBlock s
  let s := { s with disk := s.disk.write newFrameBid (setContent newFrame 0 newContentBid) }
  .ok (newInodeBid, inode, s)

def sfsOpen (s : State) (inode : Block) (dirname name : CString) : Outcome (Int × State) :=
  match findFd s with
  | none => .ok (-1, s)
  | some fdNum => do
    let dirBid ← sfsFindDir s dirname
    let dir := s.disk.read dirBid
    match ← scanSlots s.disk dir name SFS_DB_NINODES 0 (-1) inode with
    | .found inodeBid inode => .ok (fdNum.val, s.setFd fdNum ⟨inode, inodeBid, dirBid, 0, 1⟩)
    | .absent freeInode inode => do
      let (inodeBid, inode, s) ← createFile s dirBid dir freeInode inode name
      .ok (fdNum.val, s.setFd fdNum ⟨inode, inodeBid, dirBid, 0, 1⟩)

def sfsClose (s : State) (fd : Int) : Outcome (Int × State) := do
  let fd ← fdIndex fd
  .ok (0, s.setFd fd { s.fdtable fd with valid := 0 })

/-- The first slot that holds `inodeBid` is cleared. -/
def clearSlot (dir : Block) (inodeBid : Nat) : Block :=
  match (List.range SFS_DB_NINODES).find? (fun k => inodes dir k = inodeBid) with
  | some k => dir.setWord (31 + k) 0
  | none => dir

/-- Free the content blocks of a frame, from entry `i` on. -/
def freeContents (frame : Block) : (remaining i : Nat) → State → Outcome State
  | 0, _, s => .ok s
  | remaining + 1, i, s => do
    let s ← if content frame i ≠ 0 then sfsFreeBlock s (content frame i) else .ok s
    freeContents frame remaining (i + 1) s

def freeFrames : (fuel frameBid : Nat) → State → Outcome State
  | 0, _, _ => .error .spins
  | fuel + 1, frameBid, s =>
    if frameBid = 0 then .ok s
    else do
      let frame := s.disk.read frameBid
      let s ← freeContents frame SFS_FRAME_COUNT 0 s
      let s ← sfsFreeBlock s frameBid
      freeFrames fuel (nextFrame frame) s

/-- The entry that is reset at the end is a copy: the table keeps the descriptor as it was. -/
def sfsRemove (s : State) (fdNum : Int) : Outcome (Int × State) := do
  let fd := s.fdtable (← fdIndex fdNum)
  let dir := clearSlot (s.disk.read fd.dirBid) fd.inodeBid
  let dir ← setInodes dir fd.inodeBid 0
  let s := { s with disk := s.disk.write fd.dirBid dir }
  let inode := s.disk.read fd.inodeBid
  let s ← freeFrames steps (firstFrame inode) s
  let s ← sfsFreeBlock s fd.inodeBid
  .ok (0, s)

/-! ### File contents -/

/-- Allocate all entries of a frame, from `i` on. -/
def fillFrame : (remaining i : Nat) → (frame : Block) → State → Outcome (Block × State)
  | 0, _, frame, s => .ok (frame, s)
  | remaining + 1, i, frame, s => do
    let (bid, s) ← sfsAllocBlock s
    fillFrame remaining (i + 1) (setContent frame i bid) s

/-- Link a new, full frame behind `frameBid`. -/
def growFrame (s : State) (frameBid : Nat) : Outcome (Nat × State) := do
  let frame := s.disk.read frameBid
  let (newFrameBid, s) ← sfsAllocBlock s
  let s := { s with disk := s.disk.write frameBid (setNextFrame frame newFrameBid) }
  let (frame, s) ← fillFrame SFS_FRAME_COUNT 0 (s.disk.read newFrameBid) s
  .ok (newFrameBid, { s with disk := s.disk.write newFrameBid frame })

/-- The loop of `sfs_resize_file`, with `missing` frames to go. -/
def growFrames : (missing frameBid : Nat) → State → Outcome State
  | 0, _, s => .ok s
  | missing + 1, frameBid, s => do
    let (newFrameBid, s) ← growFrame s frameBid
    growFrames missing newFrameBid s

/-- The number of frames of `size` bytes. -/
def oldFrames (size : Nat) : Int :=
  let oldNframe := (toInt32 (toInt32 size + 65023)).tdiv 65024
  if oldNframe = 0 then 1 else oldNframe

def newFrames (newSize : Nat) : Nat := toU32 (newSize + 65023) / 65024

def sfsResizeFile (s : State) (fd : Fin 32) (newSize : Nat) : Outcome State := do
  let entry := s.fdtable fd
  let inode := s.disk.read entry.inodeBid
  let s ← growFrames (newFrames newSize - oldFrames (size entry.inode)).toNat (firstFrame inode) s
  .ok { s with disk := s.disk.write entry.inodeBid (setSize inode newSize) }

/-- What the inner loop of `sfs_get_file_content` leaves. -/
structure Fill where
  frame : Block
  bids : List Nat
  remaining : Nat
  state : State

/-- An entry that is still zero gets a block. -/
def fillEntry (frame : Block) (blockCount : Nat) (s : State) : Outcome (Block × State) :=
  if content frame blockCount = 0 then do
    let (bid, s) ← sfsAllocBlock s
    .ok (setContent frame blockCount bid, s)
  else .ok (frame, s)

/-- The inner loop of `sfs_get_file_content`; `cap` is the length of the array behind `bids`. -/
def contentLoop (cap : Nat) : (remaining blockCount : Nat) → (frame : Block) → (bids : List Nat) → State → Outcome Fill
  | 0, _, frame, bids, s => .ok ⟨frame, bids, 0, s⟩
  | remaining + 1, blockCount, frame, bids, s =>
    if blockCount < SFS_FRAME_COUNT then do
      let (frame, s) ← fillEntry frame blockCount s
      if bids.length < cap then
        contentLoop cap remaining (blockCount + 1) frame (bids ++ [content frame blockCount]) s
      else .error .undefined
    else .ok ⟨frame, bids, remaining + 1, s⟩

/-- The outer loop, which visits one frame after the other. Each visit stores at least one id. -/
def frameLoop (cap : Nat) : (fuel remaining blockCount frameBid : Nat) → (bids : List Nat) → State →
    Outcome (List Nat × State)
  | 0, _, _, _, _, _ => .error .spins
  | fuel + 1, remaining, blockCount, frameBid, bids, s =>
    if remaining = 0 then .ok (bids, s)
    else do
      let fill ← contentLoop cap remaining blockCount (s.disk.read frameBid) bids s
      let s := { fill.state with disk := fill.state.disk.write frameBid fill.frame }
      frameLoop cap fuel fill.remaining 0 (nextFrame fill.frame) fill.bids s

/-- The number of blocks between two positions, as the code counts them. -/
def numBlocks (cur length : Nat) : Nat := toU32 ((toU32 (cur + length) / 512 : Nat) - (cur / 512 : Nat) + 1)

def sfsGetFileContent (cap : Nat) (s : State) (fd : Fin 32) (cur length : Nat) : Outcome (List Nat × State) :=
  let inode := s.disk.read (s.fdtable fd).inodeBid
  let blocksRemaining := numBlocks cur length
  frameLoop cap (blocksRemaining + 1) blocksRemaining (cur / 512 % SFS_FRAME_COUNT) (firstFrame inode) [] s

/-- The three cases of the copy loops: up to the end of the block, a full block, the rest. -/
def toCopy (offset remaining : Nat) : Nat :=
  if offset ≠ 0 then if remaining < 512 - offset then remaining else 512 - offset
  else if remaining > 512 then 512
  else remaining

/-- The main loop of `sfs_write`. Every iteration copies from the front of the buffer. -/
def writeLoop (buf : List UInt8) : (bids : List Nat) → (remaining offset cur : Nat) → Image → Outcome (Nat × Image)
  | _, 0, _, cur, d => .ok (cur, d)
  | [], _ + 1, _, _, _ => .error .undefined
  | bid :: bids, remaining + 1, offset, cur, d => do
    let n := toCopy offset (remaining + 1)
    let block := (d.read bid).patch offset (← strncpy buf n)
    writeLoop buf bids (remaining + 1 - n) 0 (toU32 (cur + n)) (d.write bid block)

/-- The first part of `sfs_write`: a write past the end makes the file larger. -/
def resizeStage (s : State) (fd : Fin 32) (length : Int) : Outcome State :=
  let entry := s.fdtable fd
  let inode := s.disk.read entry.inodeBid
  let newSize := toU32 (length + entry.cur)
  if newSize > size inode then sfsResizeFile (s.setFd fd { entry with inode }) fd newSize else .ok s

/-- `sfs_write` with room for `cap` ids in its local array. -/
def sfsWriteWith (cap : Nat) (s : State) (fd : Int) (buf : List UInt8) (length : Int) : Outcome (Int × State) := do
  let fd ← fdIndex fd
  let cur := (s.fdtable fd).cur
  let s ← resizeStage s fd length
  let (bids, s) ← sfsGetFileContent cap s fd cur (toU32 length)
  let (cur, disk) ← writeLoop buf bids length.toNat (cur % 512) cur s.disk
  .ok (length.toNat, { s.setFd fd { s.fdtable fd with cur } with disk })

def numBids (length : Int) : Int := length.tdiv 512 + 1

def sfsWrite (s : State) (fd : Int) (buf : List UInt8) (length : Int) : Outcome (Int × State) :=
  if 0 < numBids length then sfsWriteWith (numBids length).toNat s fd buf length else .error .undefined

/-- The inner loop of `sfs_read` that counts content blocks. An entry that is zero stops it from moving. -/
def countEntries (frame : Block) (numBlocks : Nat) : (remaining contentBlk count : Nat) → Outcome Nat
  | 0, _, count => .ok count
  | remaining + 1, contentBlk, count =>
    if count < numBlocks then
      if content frame contentBlk ≠ 0 then countEntries frame numBlocks remaining (contentBlk + 1) (count + 1)
      else .error .spins
    else .ok count

/-- The loop around it. Only the first frame can leave `count` as it is. -/
def countBlocks (d : Image) (numBlocks : Nat) (numFrames : Int) :
    (fuel frameBid contentBlk count : Nat) → Outcome Nat
  | 0, _, _, _ => .error .spins
  | fuel + 1, frameBid, contentBlk, count =>
    if count < numBlocks then do
      let frame := d.read frameBid
      let count ← countEntries frame numBlocks (SFS_FRAME_COUNT - contentBlk) contentBlk count
      if nextFrame frame = 0 ∧ count < numFrames then .ok count
      else countBlocks d numBlocks numFrames fuel (nextFrame frame) 0 count
    else .ok count

/-- The main loop of `sfs_read`. Every iteration copies to the front of the buffer. -/
def readLoop (d : Image) : (bids : List Nat) → (remaining offset cur : Nat) → (buf : List UInt8) →
    Outcome (Nat × List UInt8)
  | _, 0, _, cur, buf => .ok (cur, buf)
  | [], _ + 1, _, _, _ => .error .undefined
  | bid :: bids, remaining + 1, offset, cur, buf => do
    let n := toCopy offset (remaining + 1)
    let buf ← blit buf 0 (← strncpy ((d.read bid).toList.drop offset) n)
    readLoop d bids (remaining + 1 - n) 0 (toU32 (cur + n)) buf

/-- The return value, the buffer and the state after the call. -/
def sfsRead (s : State) (fd : Int) (buf : List UInt8) (length : Int) : Outcome (Int × List UInt8 × State) := do
  let fd ← fdIndex fd
  let entry := s.fdtable fd
  let cur := entry.cur
  let inode := s.disk.read entry.inodeBid
  if 0 < numBids length then do
    let numBlocks := (numBids length).toNat
    let frameStart := cur / 65024
    let frameEnd := toU32 (cur + length) / 65024
    let numFrames : Int := frameStart - frameEnd + 1
    let offset := cur % 512
    let count ← countBlocks s.disk numBlocks numFrames (numBlocks + 2) (firstFrame inode) (cur / 512) 0
    let remaining : Int :=
      if count < numBlocks then (512 - offset : Nat) + (numBlocks - 1 : Nat) * 512 else length
    let (bids, s) ← sfsGetFileContent numBlocks s fd cur (toU32 length)
    let (cur, buf) ← readLoop s.disk bids remaining.toNat offset cur buf
    .ok (if 0 < remaining then length else 0, buf, s.setFd fd { s.fdtable fd with cur })
  else .error .undefined

/-! ### Cursors -/

/-- With another `loc`, `new_cur` is never set. -/
def newCur (s : State) (fd : Fin 32) (relative loc : Int) : Outcome Int :=
  if loc = 0 then .ok relative
  else if loc = 1 then .ok (toInt32 ((s.fdtable fd).cur + relative))
  else if loc = 2 then .ok (toInt32 (size (s.disk.read (s.fdtable fd).inodeBid) + relative))
  else .error .undefined

def sfsSeek (s : State) (fd relative loc : Int) : Outcome (Int × State) := do
  let fd ← fdIndex fd
  let cur ← newCur s fd relative loc
  .ok (0, s.setFd fd { s.fdtable fd with cur := if cur < 0 then 0 else cur.toNat })

def sfsEof (s : State) (fd : Int) : Outcome (Int × State) := do
  let fd ← fdIndex fd
  .ok (if (s.fdtable fd).cur > size (s.disk.read (s.fdtable fd).inodeBid) then 1 else 0, s)

end StorageStack.Sfs
