import StorageStack.Lib.Runs
import StorageStack.Mydisk.Cache
import StorageStack.Mydisk.Read

/-!
# The disk as an array of bytes

All calls of the disk and of the cache in one run. With the cache on a block that is read comes back as the buffer
was, so that a range that is read is all zeros, and a block of which a part is written loses its other bytes.
-/

namespace StorageStack.Mydisk
open Lib

/-! ### The other calls of the cache -/

def enableCache (d : Disk) : Disk := { d with cacheEnabled := true }

def disableCache (d : Disk) : Disk := { d with cacheEnabled := false }

def closeCache (d : Disk) : Int × Disk := (0, disableCache d)

/-- It returns no block. Without `init_cache` it divides by zero. -/
def getCachedBlock (c : Cache) (_ : Int) : Outcome Cache :=
  if c.cacheBlocks = 0 then .error .undefined else .ok { c with out := (c.out + 1) % c.cacheBlocks }

def markDirty (c : Cache) (_ : Int) : Cache := c

inductive Call where
  | block (c : BlockCall)
  | read (unset startAddress nbytes : Int) (buffer : List UInt8)
  | write (unset startAddress nbytes : Int) (buffer : List UInt8)
  | initCache (nblocks : Nat)
  | closeCache
  | enableCache
  | disableCache
  | getCachedBlock (blockId : Int)
  | createCachedBlock (blockId : Int)
  | markDirty (blockId : Int)

/-- What a call returns, and its buffer afterwards. -/
abbrev Answer := Int × List UInt8

namespace Call

def run : Call → Disk → Outcome (List Answer × Disk)
  | block c, d => do
    let (r, buffer, d) ← c.run d
    .ok ([(r, buffer)], d)
  | read unset startAddress nbytes buffer, d => do
    let (r, buffer, d) ← mydiskRead d unset startAddress nbytes buffer
    .ok ([(r, buffer)], d)
  | write unset startAddress nbytes buffer, d => do
    let (r, d) ← mydiskWrite d unset startAddress nbytes buffer
    .ok ([(r, buffer)], d)
  | initCache nblocks, d => .ok ([(0, [])], Mydisk.initCache d nblocks)
  | closeCache, d => .ok ([((Mydisk.closeCache d).1, [])], (Mydisk.closeCache d).2)
  | enableCache, d => .ok ([(0, [])], Mydisk.enableCache d)
  | disableCache, d => .ok ([(0, [])], Mydisk.disableCache d)
  | getCachedBlock blockId, d => do
    .ok ([(0, [])], { d with cache := ← Mydisk.getCachedBlock d.cache blockId })
  | createCachedBlock blockId, d => do
    let (_, cache) ← Mydisk.createCachedBlock d.cache blockId
    .ok ([(0, [])], { d with cache })
  | markDirty blockId, d => .ok ([(0, [])], { d with cache := Mydisk.markDirty d.cache blockId })

end Call

/-! ### The reference -/

/-- The bytes of the disk, whether the cache is on, and for how many blocks it was made. -/
structure Flat where
  bytes : List UInt8
  cached : Bool
  slots : Nat

namespace Flat

def blank (nblocks : Nat) : Flat := ⟨List.replicate (512 * nblocks) 0, false, 0⟩

/-- What a range is read from. -/
def seen (ref : Flat) : List UInt8 := if ref.cached then List.replicate ref.bytes.length 0 else ref.bytes

def blankBlock (bytes : List UInt8) (b : Nat) : List UInt8 := overlay bytes (512 * b) (List.replicate 512 0)

/-- The blocks that a range has a part of are zeros. -/
def blankParts (bytes : List UInt8) (start n : Nat) : List UInt8 :=
  let front := if start % 512 ≠ 0 then blankBlock bytes (start / 512) else bytes
  if endsInside start n then blankBlock front (start / 512 + blocksVisited start n - 1) else front

/-- What a range is written over. -/
def base (ref : Flat) (start n : Nat) : List UInt8 := if ref.cached then blankParts ref.bytes start n else ref.bytes

end Flat

def Inside (nblocks : Nat) (startAddress nbytes : Int) : Prop :=
  0 ≤ startAddress ∧ 0 ≤ nbytes ∧ startAddress + nbytes ≤ nblocks * 512

instance (nblocks : Nat) (startAddress nbytes : Int) : Decidable (Inside nblocks startAddress nbytes) :=
  inferInstanceAs (Decidable (_ ∧ _ ∧ _))

/-- A call for a block there is. -/
def BlockCall.serve (ref : Flat) : BlockCall → Answer × Flat
  | read blockId buffer => ((0, if ref.cached then buffer.toList else block ref.bytes blockId.toNat), ref)
  | write blockId buffer => ((0, buffer.toList), { ref with bytes := overlay ref.bytes (512 * blockId.toNat) buffer.toList })

def Call.reply (nblocks : Nat) : Call → Flat → Answer × Flat
  | block c, ref => if c.blockId > nblocks then ((1, c.buffer.toList), ref) else c.serve ref
  | read _ startAddress nbytes buffer, ref =>
    if Inside nblocks startAddress nbytes then
      ((0, overlay buffer 0 ((ref.seen.drop startAddress.toNat).take nbytes.toNat)), ref)
    else ((1, buffer), ref)
  | write _ startAddress nbytes buffer, ref =>
    if Inside nblocks startAddress nbytes then
      ((0, buffer), { ref with bytes := overlay (ref.base startAddress.toNat nbytes.toNat) startAddress.toNat buffer })
    else ((1, buffer), ref)
  | initCache slots, ref => ((0, []), { ref with cached := true, slots })
  | closeCache, ref => ((0, []), { ref with cached := false })
  | enableCache, ref => ((0, []), { ref with cached := true })
  | disableCache, ref => ((0, []), { ref with cached := false })
  | getCachedBlock _, ref => ((0, []), ref)
  | createCachedBlock _, ref => ((0, []), ref)
  | markDirty _, ref => ((0, []), ref)

/-- Ids of blocks, or far behind them; ranges that the disk serves, where it has the bytes that are seen and the base
for its own; and a cache that was made before it is used. -/
def Call.Suits (nblocks : Nat) : Call → Flat → Prop
  | block c, _ => 0 ≤ c.blockId ∧ c.blockId ≠ nblocks
  | read unset startAddress nbytes buffer, ref => unset ≠ 1 ∧ (Inside nblocks startAddress nbytes →
      nbytes ≤ buffer.length ∧ ReadServes ref.seen nblocks startAddress.toNat nbytes.toNat buffer)
  | write unset startAddress nbytes buffer, ref => unset ≠ 1 ∧ (Inside nblocks startAddress nbytes →
      buffer.length = nbytes.toNat ∧ WriteServes (ref.base startAddress.toNat nbytes.toNat) nblocks startAddress.toNat buffer)
  | initCache slots, _ => 1 ≤ slots
  | enableCache, ref => 1 ≤ ref.slots
  | getCachedBlock _, ref => 1 ≤ ref.slots
  | createCachedBlock _, ref => 1 ≤ ref.slots
  | closeCache, _ => True
  | disableCache, _ => True
  | markDirty _, _ => True

/-- The disk has the bytes of the reference, and a cache that is on has room. -/
structure Shows (nblocks : Nat) (d : Disk) (ref : Flat) : Prop where
  maxBlocks : d.maxBlocks = nblocks
  bytes : d.thefile.bytes = ref.bytes
  size : ref.bytes.length = nblocks * 512
  enabled : d.cacheEnabled = ref.cached
  made : ref.cached = true → 1 ≤ ref.slots
  slots : d.cache.cacheBlocks = ref.slots
  queue : d.cache.queue.length = ref.slots
  next : 1 ≤ ref.slots → d.cache.next < ref.slots

/-! ### Rounds of the loops -/

/-- What `mydisk_read` copies from a block. -/
def copyRound (offset bytesToRead remainderBytes remaining amount : Nat) (buffer tempBlock : List UInt8) : Outcome (List UInt8) :=
  if amount = 0 ∧ remaining = 0 then memcpy buffer 0 tempBlock offset remainderBytes
  else if amount = 0 ∧ offset ≠ 0 then memcpy buffer 0 tempBlock offset bytesToRead
  else if remaining = 0 ∧ remainderBytes ≠ 0 then memcpy buffer bytesToRead tempBlock 0 remainderBytes
  else memcpy buffer 0 tempBlock 0 512

theorem readLoop_succ (offset len rem remaining amount b : Nat) (buffer : List UInt8) (d : Disk) :
    readLoop offset len rem (remaining + 1) amount b buffer d =
      (mydiskReadBlock d b (List.replicate 512 0) >>= fun p =>
        copyRound offset len rem remaining amount buffer p.2.1 >>= fun out =>
        readLoop offset len rem remaining (amount + 1) (b + 1) out p.2.2) := by
  rw [readLoop]
  cases mydiskReadBlock d b (List.replicate 512 0) with
  | error e => rfl
  | ok p =>
    rw [ok_bind, ok_bind, copyRound]
    dsimp only
    split
    · rfl
    · split
      · rfl
      · split
        · rfl
        · rfl

/-- How `mydisk_write` stores a block. -/
def storeRound (offset bytesToWrite remainderBytes : Nat) (partialStart partialEnd : Bool) (buffer : List UInt8)
    (remaining amount blockId : Nat) (d : Disk) : Outcome Disk :=
  if amount = 0 ∧ partialStart then patchBlock d blockId offset buffer 0 bytesToWrite
  else if remaining = 0 ∧ partialEnd then patchBlock d blockId 0 buffer bytesToWrite remainderBytes
  else writeWhole d blockId buffer bytesToWrite

theorem writeLoop_succ (offset len rem : Nat) (partialStart partialEnd : Bool) (buffer : List UInt8) (remaining amount b : Nat)
    (d : Disk) : writeLoop offset len rem partialStart partialEnd buffer (remaining + 1) amount b d =
      (storeRound offset len rem partialStart partialEnd buffer remaining amount b d >>= fun d =>
        writeLoop offset len rem partialStart partialEnd buffer remaining (amount + 1) (b + 1) d) := by
  rw [writeLoop, storeRound]
  split
  · rfl
  · split
    · rfl
    · rfl

/-! ### What no call changes -/

/-- Only the file, the entries and the places in the ring differ. -/
structure SameShape (d d' : Disk) : Prop where
  maxBlocks : d'.maxBlocks = d.maxBlocks
  enabled : d'.cacheEnabled = d.cacheEnabled
  slots : d'.cache.cacheBlocks = d.cache.cacheBlocks
  queue : d'.cache.queue.length = d.cache.queue.length
  next : d.cache.next < d.cache.cacheBlocks → d'.cache.next < d.cache.cacheBlocks

variable {d d' e e' : Disk} {nblocks : Nat} {ref : Flat} {buffer out out' : List UInt8}

theorem SameShape.refl (d : Disk) : SameShape d d := ⟨rfl, rfl, rfl, rfl, id⟩

theorem SameShape.trans {d₁ d₂ d₃ : Disk} (first : SameShape d₁ d₂) (second : SameShape d₂ d₃) : SameShape d₁ d₃ where
  maxBlocks := second.maxBlocks.trans first.maxBlocks
  enabled := second.enabled.trans first.enabled
  slots := second.slots.trans first.slots
  queue := second.queue.trans first.queue
  next before := by
    have between := second.next (by rw [first.slots]; exact first.next before)
    rwa [first.slots] at between

theorem createCachedBlock_shape {c c' : Cache} {blockId : Int} {index : Nat}
    (run : createCachedBlock c blockId = .ok (index, c')) :
    c'.cacheBlocks = c.cacheBlocks ∧ c'.queue.length = c.queue.length ∧ (0 < c.cacheBlocks → c'.next < c.cacheBlocks) := by
  unfold createCachedBlock at run
  split at run
  · obtain ⟨-, rfl⟩ := Prod.mk.inj (Except.ok.inj run)
    exact ⟨rfl, List.length_set, Nat.mod_lt _⟩
  · cases run

theorem mydiskReadBlock_shape {blockId r : Int} (run : mydiskReadBlock d blockId buffer = .ok (r, out, d')) : SameShape d d' := by
  unfold mydiskReadBlock at run
  dsimp only at run
  split at run
  · obtain ⟨-, -, rfl⟩ := Prod.mk.inj (Except.ok.inj run) |>.imp id Prod.mk.inj
    exact .refl d
  · split at run
    · obtain ⟨⟨index, cache⟩, made, run⟩ := bind_ok run
      obtain ⟨-, -, rfl⟩ := Prod.mk.inj (Except.ok.inj run) |>.imp id Prod.mk.inj
      obtain ⟨slots, queue, next⟩ := createCachedBlock_shape made
      exact ⟨rfl, rfl, slots, queue, fun before => next (by omega)⟩
    · obtain ⟨stored, -, run⟩ := bind_ok run
      obtain ⟨-, -, rfl⟩ := Prod.mk.inj (Except.ok.inj run) |>.imp id Prod.mk.inj
      exact ⟨rfl, rfl, rfl, rfl, id⟩

theorem mydiskWriteBlock_shape (d : Disk) (blockId : Int) (data : List UInt8) :
    SameShape d (mydiskWriteBlock d blockId data).2 := by
  unfold mydiskWriteBlock
  split
  · exact .refl d
  · exact ⟨rfl, rfl, rfl, rfl, id⟩

theorem readLoop_shape {offset len rem remaining amount b : Nat}
    (run : readLoop offset len rem remaining amount b out d = .ok (out', d')) : SameShape d d' := by
  induction remaining generalizing amount b out d with
  | zero =>
    obtain ⟨-, rfl⟩ := Prod.mk.inj (Except.ok.inj run)
    exact .refl d
  | succ remaining ih =>
    rw [readLoop_succ] at run
    obtain ⟨⟨r, temp, d₁⟩, read, run⟩ := bind_ok run
    obtain ⟨out₁, -, run⟩ := bind_ok run
    exact (mydiskReadBlock_shape read).trans (ih run)

theorem patchBlock_shape {b pos start len : Nat} (run : patchBlock d b pos buffer start len = .ok d') : SameShape d d' := by
  obtain ⟨⟨r, temp, d₁⟩, read, run⟩ := bind_ok run
  obtain ⟨temp', -, run⟩ := bind_ok run
  obtain rfl := Except.ok.inj run
  exact (mydiskReadBlock_shape read).trans (mydiskWriteBlock_shape ..)

theorem writeWhole_shape {b start : Nat} (run : writeWhole d b buffer start = .ok d') : SameShape d d' := by
  obtain ⟨data, -, run⟩ := bind_ok run
  obtain rfl := Except.ok.inj run
  exact mydiskWriteBlock_shape ..

theorem storeRound_shape {offset len rem remaining amount b : Nat} {partialStart partialEnd : Bool}
    (run : storeRound offset len rem partialStart partialEnd buffer remaining amount b d = .ok d') : SameShape d d' := by
  unfold storeRound at run
  split at run
  · exact patchBlock_shape run
  · split at run
    · exact patchBlock_shape run
    · exact writeWhole_shape run

theorem writeLoop_shape {offset len rem remaining amount b : Nat} {partialStart partialEnd : Bool}
    (run : writeLoop offset len rem partialStart partialEnd buffer remaining amount b d = .ok d') : SameShape d d' := by
  induction remaining generalizing amount b d with
  | zero =>
    obtain rfl := Except.ok.inj run
    exact .refl d
  | succ remaining ih =>
    rw [writeLoop_succ] at run
    obtain ⟨d₁, step, run⟩ := bind_ok run
    exact (storeRound_shape step).trans (ih run)

theorem mydiskRead_shape {unset start nbytes r : Int} (run : mydiskRead d unset start nbytes buffer = .ok (r, out, d')) :
    SameShape d d' := by
  unfold mydiskRead at run
  split at run
  · obtain ⟨-, -, rfl⟩ := Prod.mk.inj (Except.ok.inj run) |>.imp id Prod.mk.inj
    exact .refl d
  · obtain ⟨⟨out₁, d₁⟩, loop, run⟩ := bind_ok run
    obtain ⟨-, -, rfl⟩ := Prod.mk.inj (Except.ok.inj run) |>.imp id Prod.mk.inj
    exact readLoop_shape loop

theorem mydiskWrite_shape {unset start nbytes r : Int} (run : mydiskWrite d unset start nbytes buffer = .ok (r, d')) :
    SameShape d d' := by
  unfold mydiskWrite at run
  split at run
  · obtain ⟨-, rfl⟩ := Prod.mk.inj (Except.ok.inj run)
    exact .refl d
  · obtain ⟨d₁, loop, run⟩ := bind_ok run
    obtain ⟨-, rfl⟩ := Prod.mk.inj (Except.ok.inj run)
    exact writeLoop_shape loop

/-! ### Reading with the cache on -/

theorem SameShape.caching (same : SameShape d d') (caching : Caching d) : Caching d' where
  enabled := same.enabled.trans caching.enabled
  slots := by rw [same.queue, same.slots, caching.slots]
  next := by
    rw [same.slots]
    exact same.next caching.next

theorem mydiskReadBlock_cached (caching : Caching d) (blockId : Int) (buffer : List UInt8) :
    ∃ r d', mydiskReadBlock d blockId buffer = .ok (r, buffer, d') ∧ d'.thefile.bytes = d.thefile.bytes ∧
      (blockId ≤ d.maxBlocks → r = 0) := by
  rw [mydiskReadBlock]
  dsimp only
  by_cases outside : blockId > d.maxBlocks
  · rw [if_pos outside]
    exact ⟨1, d, rfl, rfl, fun inside => absurd inside (by omega)⟩
  · obtain ⟨index, cache, made, -⟩ := createCachedBlock_ok caching blockId
    rw [if_neg outside, if_pos caching.enabled, made, ok_bind]
    exact ⟨0, _, rfl, seek_bytes _ _, fun _ => rfl⟩

/-- A block of a file of zeros, or nothing where it ends, leaves a buffer of zeros. -/
theorem mydiskReadBlock_blank {k : Nat} (uncached : e.cacheEnabled = false) (zeros : e.thefile.bytes = List.replicate k 0)
    (blockId : Int) : ∃ r e', mydiskReadBlock e blockId (List.replicate 512 0) = .ok (r, List.replicate 512 0, e') ∧
      e'.thefile.bytes = List.replicate k 0 := by
  rw [mydiskReadBlock]
  dsimp only
  by_cases outside : blockId > e.maxBlocks
  · rw [if_pos outside]
    exact ⟨1, e, rfl, zeros⟩
  · have off : ¬ e.cacheEnabled = true := by rw [uncached]; decide
    have got : (((List.replicate k (0 : UInt8)).drop (e.thefile.seek (toInt32 (blockId * 512))).pos).take 512).length ≤ 512 :=
      List.length_take_le ..
    have same : overlay (List.replicate 512 (0 : UInt8)) 0
        (((List.replicate k (0 : UInt8)).drop (e.thefile.seek (toInt32 (blockId * 512))).pos).take 512) =
          List.replicate 512 0 := by
      rw [List.drop_replicate, List.take_replicate] at got ⊢
      rw [List.length_replicate] at got
      rw [overlay, List.take_zero, List.nil_append, List.length_replicate, List.drop_replicate, List.replicate_append_replicate]
      congr 1
      omega
    rw [if_neg outside, if_neg off, File.read]
    dsimp only
    rw [seek_bytes, zeros, blit, if_pos (by rw [List.length_replicate]; omega), same]
    exact ⟨0, _, rfl, rfl⟩

/-- A cached disk reads as a disk of zeros does without a cache. -/
theorem readLoop_blank {k offset len rem remaining amount b : Nat} (caching : Caching d) (uncached : e.cacheEnabled = false)
    (zeros : e.thefile.bytes = List.replicate k 0)
    (run : readLoop offset len rem remaining amount b out e = .ok (out', e')) :
    ∃ d', readLoop offset len rem remaining amount b out d = .ok (out', d') ∧ d'.thefile.bytes = d.thefile.bytes := by
  induction remaining generalizing amount b out d e with
  | zero =>
    obtain ⟨rfl, rfl⟩ := Prod.mk.inj (Except.ok.inj run)
    exact ⟨d, rfl, rfl⟩
  | succ remaining ih =>
    obtain ⟨r, e₁, blank, zeros₁⟩ := mydiskReadBlock_blank uncached zeros (b : Int)
    obtain ⟨r', d₁, cached, bytes, -⟩ := mydiskReadBlock_cached caching (b : Int) (List.replicate 512 0)
    have caching₁ := (mydiskReadBlock_shape cached).caching caching
    have uncached₁ := (mydiskReadBlock_shape blank).enabled.trans uncached
    rw [readLoop_succ, blank, ok_bind] at run
    rw [readLoop_succ, cached, ok_bind, ← bytes]
    obtain ⟨out₁, copied, run⟩ := bind_ok run
    rw [copied, ok_bind]
    exact ih caching₁ uncached₁ zeros₁ run

theorem checkParams_congr {unset start nbytes : Int} (same : d.maxBlocks = e.maxBlocks) :
    checkParams d unset start nbytes = checkParams e unset start nbytes := by
  unfold checkParams
  rw [same]

theorem mydiskRead_blank {k : Nat} {unset start nbytes r : Int} (caching : Caching d) (uncached : e.cacheEnabled = false)
    (zeros : e.thefile.bytes = List.replicate k 0) (same : d.maxBlocks = e.maxBlocks)
    (run : mydiskRead e unset start nbytes out = .ok (r, out', e')) :
    ∃ d', mydiskRead d unset start nbytes out = .ok (r, out', d') ∧ d'.thefile.bytes = d.thefile.bytes := by
  unfold mydiskRead at run ⊢
  rw [checkParams_congr same]
  split at run
  · rename_i refused
    obtain ⟨rfl, rest⟩ := Prod.mk.inj (Except.ok.inj run)
    obtain ⟨rfl, -⟩ := Prod.mk.inj rest
    rw [if_pos refused]
    exact ⟨d, rfl, rfl⟩
  · rename_i served
    obtain ⟨⟨out₁, e₁⟩, loop, run⟩ := bind_ok run
    obtain ⟨rfl, rest⟩ := Prod.mk.inj (Except.ok.inj run)
    obtain ⟨rfl, -⟩ := Prod.mk.inj rest
    obtain ⟨d', loop', bytes⟩ := readLoop_blank caching uncached zeros loop
    rw [if_neg served]
    dsimp only
    rw [loop', ok_bind]
    exact ⟨d', rfl, bytes⟩

/-! ### Writing with the cache on -/

theorem SameShape.sized (same : SameShape d d') (sized : Sized d nblocks) (size : d'.thefile.bytes.length = nblocks * 512) :
    Sized d' nblocks := ⟨same.maxBlocks.trans sized.maxBlocks, size, sized.small⟩

theorem SameShape.ready (same : SameShape d d') (ready : Ready d nblocks) (size : d'.thefile.bytes.length = nblocks * 512) :
    Ready d' nblocks := ⟨same.maxBlocks.trans ready.maxBlocks, same.enabled.trans ready.uncached, size, ready.small⟩

theorem length_memcpy {dst src : List UInt8} {off start len : Nat} (run : memcpy dst off src start len = .ok out) :
    out.length = dst.length := by
  obtain ⟨data, -, run⟩ := bind_ok run
  unfold blit at run
  split at run
  · rename_i fits
    obtain rfl := Except.ok.inj run
    exact length_overlay fits
  · cases run

/-- Both disks get the same block. -/
def StoredOn (d d' e e' : Disk) (b : Nat) : Prop := ∃ data : List UInt8, data.length = 512 ∧
  d'.thefile.bytes = overlay d.thefile.bytes (512 * b) data ∧ e'.thefile.bytes = overlay e.thefile.bytes (512 * b) data

theorem patchBlock_blank {b pos start len : Nat} (caching : Caching d) (sized : Sized d nblocks) (ready : Ready e nblocks)
    (inside : b < nblocks) (zeros : block e.thefile.bytes b = List.replicate 512 0)
    (run : patchBlock e b pos buffer start len = .ok e') :
    ∃ d', patchBlock d b pos buffer start len = .ok d' ∧ StoredOn d d' e e' b := by
  rw [patchBlock, mydiskReadBlock_ok ready.sized ready.uncached inside List.length_replicate, ok_bind, zeros] at run
  obtain ⟨data, copied, run⟩ := bind_ok run
  obtain rfl := Except.ok.inj run
  obtain ⟨r, d₁, read, bytes, -⟩ := mydiskReadBlock_cached caching (b : Int) (List.replicate 512 0)
  have length : data.length = 512 := (length_memcpy copied).trans List.length_replicate
  have sized₁ := (mydiskReadBlock_shape read).sized sized (bytes ▸ sized.size)
  refine ⟨_, by rw [patchBlock, read, ok_bind]; dsimp only; rw [copied, ok_bind], data, length, ?_, ?_⟩
  · rw [mydiskWriteBlock_ok sized₁ inside, store_bytes, bytes]
  · rw [mydiskWriteBlock_ok (ready.store ready.size).sized inside, store_bytes, store_bytes]

theorem writeWhole_both {b start : Nat} (sized : Sized d nblocks) (sized' : Sized e nblocks) (inside : b < nblocks)
    (run : writeWhole e b buffer start = .ok e') :
    ∃ d', writeWhole d b buffer start = .ok d' ∧ StoredOn d d' e e' b := by
  obtain ⟨data, cut, run⟩ := bind_ok run
  obtain rfl := Except.ok.inj run
  have length : data.length = 512 := by
    unfold slice at cut
    split at cut
    · obtain rfl := Except.ok.inj cut
      rw [List.length_take, List.length_drop]
      omega
    · cases cut
  refine ⟨_, by rw [writeWhole, cut, ok_bind], data, length, ?_, ?_⟩
  · rw [mydiskWriteBlock_ok sized inside, store_bytes]
  · rw [mydiskWriteBlock_ok sized' inside, store_bytes]

/-- Block `c` is one that the rest of the loop stores a part of. -/
def PartOf (partialStart partialEnd : Bool) (remaining amount b c : Nat) : Prop :=
  remaining ≠ 0 ∧ (amount = 0 ∧ partialStart = true ∧ c = b ∨ partialEnd = true ∧ c = b + remaining - 1)

/-- The second disk has zeros where the loop will store a part of a block. -/
structure Blanked (nblocks : Nat) (d e : Disk) (part : Nat → Prop) : Prop where
  parts : ∀ c < nblocks, part c → block e.thefile.bytes c = List.replicate 512 0
  rest : ∀ c < nblocks, ¬ part c → block e.thefile.bytes c = block d.thefile.bytes c

theorem ext_block {bytes bytes' : List UInt8} (size : bytes.length = nblocks * 512) (size' : bytes'.length = nblocks * 512)
    (same : ∀ c < nblocks, block bytes c = block bytes' c) : bytes = bytes' := by
  apply List.ext_getElem?
  intro i
  by_cases inside : i < nblocks * 512
  · have here : (block bytes (i / 512))[i % 512]? = (block bytes' (i / 512))[i % 512]? := by rw [same (i / 512) (by omega)]
    rw [getElem?_block, getElem?_block, if_pos (Nat.mod_lt _ (by decide)), if_pos (Nat.mod_lt _ (by decide)),
      Nat.div_add_mod] at here
    exact here
  · rw [List.getElem?_eq_none (by omega), List.getElem?_eq_none (by omega)]

theorem storeRound_blank {offset len rem remaining amount b : Nat} {partialStart partialEnd : Bool} (caching : Caching d)
    (sized : Sized d nblocks) (ready : Ready e nblocks) (inside : b < nblocks)
    (blanked : Blanked nblocks d e (PartOf partialStart partialEnd (remaining + 1) amount b))
    (run : storeRound offset len rem partialStart partialEnd buffer remaining amount b e = .ok e') :
    ∃ d', storeRound offset len rem partialStart partialEnd buffer remaining amount b d = .ok d' ∧ StoredOn d d' e e' b := by
  unfold storeRound at run ⊢
  split at run
  · rename_i first
    rw [if_pos first]
    exact patchBlock_blank caching sized ready inside
      (blanked.parts b inside ⟨Nat.succ_ne_zero _, .inl ⟨first.1, first.2, rfl⟩⟩) run
  · rename_i later
    rw [if_neg later]
    split at run
    · rename_i last
      rw [if_pos last]
      exact patchBlock_blank caching sized ready inside
        (blanked.parts b inside ⟨Nat.succ_ne_zero _, .inr ⟨last.2, by omega⟩⟩) run
    · rename_i whole
      rw [if_neg whole]
      exact writeWhole_both sized ready.sized inside run

/-- The round makes block `b` the same on both disks. -/
theorem Blanked.next {remaining amount b : Nat} {partialStart partialEnd : Bool}
    (blanked : Blanked nblocks d e (PartOf partialStart partialEnd (remaining + 1) amount b)) (inside : b < nblocks)
    (size : d.thefile.bytes.length = nblocks * 512) (size' : e.thefile.bytes.length = nblocks * 512)
    (stored : StoredOn d d' e e' b) : Blanked nblocks d' e' (PartOf partialStart partialEnd remaining (amount + 1) (b + 1)) := by
  obtain ⟨data, length, bytes, bytes'⟩ := stored
  have same : ∀ c, c ≠ b → (PartOf partialStart partialEnd remaining (amount + 1) (b + 1) c ↔
      PartOf partialStart partialEnd (remaining + 1) amount b c) := by
    intro c other
    unfold PartOf
    constructor
    · rintro ⟨more, ⟨first, -⟩ | ⟨ends, last⟩⟩
      · omega
      · exact ⟨Nat.succ_ne_zero _, .inr ⟨ends, by omega⟩⟩
    · rintro ⟨-, ⟨-, -, here⟩ | ⟨ends, last⟩⟩
      · exact absurd here other
      · exact ⟨by omega, .inr ⟨ends, by omega⟩⟩
  constructor
  · intro c below part
    have other : c ≠ b := by
      rintro rfl
      obtain ⟨more, ⟨first, -⟩ | ⟨-, last⟩⟩ := part
      · omega
      · omega
    rw [bytes', block_overlay size' inside length, if_neg other]
    exact blanked.parts c below ((same c other).mp part)
  · intro c below whole
    rw [bytes, bytes', block_overlay size inside length, block_overlay size' inside length]
    by_cases here : c = b
    · rw [if_pos here, if_pos here]
    · rw [if_neg here, if_neg here]
      exact blanked.rest c below fun part => whole ((same c here).mpr part)

theorem writeLoop_blank {offset len rem remaining amount b : Nat} {partialStart partialEnd : Bool} (caching : Caching d)
    (sized : Sized d nblocks) (ready : Ready e nblocks) (range : b + remaining ≤ nblocks)
    (blanked : Blanked nblocks d e (PartOf partialStart partialEnd remaining amount b))
    (run : writeLoop offset len rem partialStart partialEnd buffer remaining amount b e = .ok e') :
    ∃ d', writeLoop offset len rem partialStart partialEnd buffer remaining amount b d = .ok d' ∧
      d'.thefile.bytes = e'.thefile.bytes := by
  induction remaining generalizing amount b d e with
  | zero =>
    obtain rfl := Except.ok.inj run
    refine ⟨d, rfl, ext_block sized.size ready.size fun c below => ?_⟩
    exact (blanked.rest c below fun part => part.1 rfl).symm
  | succ remaining ih =>
    rw [writeLoop_succ] at run ⊢
    obtain ⟨e₁, step, run⟩ := bind_ok run
    obtain ⟨d₁, step', stored⟩ := storeRound_blank caching sized ready (by omega) blanked step
    have next := blanked.next (by omega) sized.size ready.size stored
    obtain ⟨data, length, bytes, bytes'⟩ := stored
    have shape := storeRound_shape step
    have shape' := storeRound_shape step'
    have size : d₁.thefile.bytes.length = nblocks * 512 := by
      rw [bytes, length_overlay (by rw [sized.size]; omega), sized.size]
    have size' : e₁.thefile.bytes.length = nblocks * 512 := by
      rw [bytes', length_overlay (by rw [ready.size]; omega), ready.size]
    rw [step', ok_bind]
    exact ih (shape'.caching caching) (shape'.sized sized size) (shape.ready ready size') (by omega) next run

/-- The same disk without the cache and with other bytes. -/
def Disk.twin (d : Disk) (bytes : List UInt8) : Disk := { d with thefile := ⟨bytes, 0⟩, cacheEnabled := false }

theorem length_blankBlock {bytes : List UInt8} {b : Nat} (size : bytes.length = nblocks * 512) (inside : b < nblocks) :
    (Flat.blankBlock bytes b).length = nblocks * 512 := by
  rw [Flat.blankBlock, length_overlay (by rw [List.length_replicate]; omega), size]

theorem block_blankBlock {bytes : List UInt8} {b c : Nat} (size : bytes.length = nblocks * 512) (inside : b < nblocks) :
    block (Flat.blankBlock bytes b) c = if c = b then List.replicate 512 0 else block bytes c :=
  block_overlay size inside List.length_replicate

theorem blocksVisited_pos (start n : Nat) : 1 ≤ blocksVisited start n := by
  rcases blocksVisited_cases start n with ⟨_, _, _, visited⟩ | ⟨_, _, _, visited⟩ | ⟨_, _, visited⟩
  · omega
  · omega
  · omega

theorem blankParts_blanked {start n : Nat} (size : d.thefile.bytes.length = nblocks * 512)
    (range : start / 512 + blocksVisited start n ≤ nblocks) :
    (Flat.blankParts d.thefile.bytes start n).length = nblocks * 512 ∧
      Blanked nblocks d (d.twin (Flat.blankParts d.thefile.bytes start n))
        (PartOf (decide (start % 512 ≠ 0)) (endsInside start n) (blocksVisited start n) 0 (start / 512)) := by
  have some := blocksVisited_pos start n
  have first : start / 512 < nblocks := by omega
  have last : start / 512 + blocksVisited start n - 1 < nblocks := by omega
  have front : ∀ c, block (if start % 512 ≠ 0 then Flat.blankBlock d.thefile.bytes (start / 512) else d.thefile.bytes) c =
      if start % 512 ≠ 0 ∧ c = start / 512 then List.replicate 512 0 else block d.thefile.bytes c := by
    intro c
    by_cases partialStart : start % 512 ≠ 0
    · rw [if_pos partialStart, block_blankBlock size first]
      exact if_congr (and_iff_right partialStart).symm rfl rfl
    · rw [if_neg partialStart, if_neg fun both => partialStart both.1]
  have length : (if start % 512 ≠ 0 then Flat.blankBlock d.thefile.bytes (start / 512) else d.thefile.bytes).length =
      nblocks * 512 := by
    split
    · exact length_blankBlock size first
    · exact size
  have blocks : ∀ c, block (Flat.blankParts d.thefile.bytes start n) c =
      if (start % 512 ≠ 0 ∧ c = start / 512) ∨ (endsInside start n = true ∧ c = start / 512 + blocksVisited start n - 1) then
        List.replicate 512 0 else block d.thefile.bytes c := by
    intro c
    unfold Flat.blankParts
    dsimp only
    by_cases ends : endsInside start n = true
    · rw [if_pos ends, block_blankBlock length last, front c]
      by_cases here : c = start / 512 + blocksVisited start n - 1
      · rw [if_pos here, if_pos (.inr ⟨ends, here⟩)]
      · rw [if_neg here]
        exact if_congr (or_iff_left fun both => here both.2).symm rfl rfl
    · rw [if_neg ends, front c]
      exact if_congr (or_iff_left fun both => ends both.1).symm rfl rfl
  have part : ∀ c, PartOf (decide (start % 512 ≠ 0)) (endsInside start n) (blocksVisited start n) 0 (start / 512) c ↔
      (start % 512 ≠ 0 ∧ c = start / 512) ∨ (endsInside start n = true ∧ c = start / 512 + blocksVisited start n - 1) := by
    intro c
    rw [PartOf, decide_eq_true_iff, and_iff_right (by omega), and_iff_right rfl]
  refine ⟨?_, fun c _ here => ?_, fun c _ other => ?_⟩
  · unfold Flat.blankParts
    dsimp only
    split
    · exact length_blankBlock length last
    · exact length
  · rw [Disk.twin, blocks c, if_pos ((part c).mp here)]
  · rw [Disk.twin, blocks c, if_neg fun here => other ((part c).mpr here)]

theorem Sized.twin {bytes : List UInt8} (sized : Sized d nblocks) (small : nblocks * 512 < 2 ^ 30)
    (size : bytes.length = nblocks * 512) : Ready (d.twin bytes) nblocks := ⟨sized.maxBlocks, rfl, size, small⟩

/-- A cached disk stores a range as a disk without a cache does whose blocks are zeros where the range has a part. -/
theorem mydiskWrite_blank {unset : Int} {start : Nat} (caching : Caching d) (sized : Sized d nblocks)
    (small : nblocks * 512 < 2 ^ 30) (falls : unset ≠ 1) (range : start + buffer.length ≤ nblocks * 512)
    (serves : WriteServes (Flat.blankParts d.thefile.bytes start buffer.length) nblocks start buffer) :
    (Flat.blankParts d.thefile.bytes start buffer.length).length = nblocks * 512 ∧
      ∃ d', mydiskWrite d unset start buffer.length buffer = .ok (0, d') ∧
        d'.thefile.bytes = overlay (Flat.blankParts d.thefile.bytes start buffer.length) start buffer := by
  obtain ⟨gate, fits, -⟩ := id serves
  have visits : start / 512 + blocksVisited start buffer.length ≤ nblocks := by
    unfold SourceFits at fits
    rcases blocksVisited_cases start buffer.length with ⟨_, _, _, visited⟩ | ⟨_, _, _, visited⟩ | ⟨_, _, visited⟩
    · rw [visited]
      split at fits <;> omega
    · rw [visited]
      split at fits <;> omega
    · rw [visited]
      split at fits <;> omega
  obtain ⟨size, blanked⟩ := blankParts_blanked sized.size visits
  have ready := sized.twin small size
  obtain ⟨e', run, bytes⟩ := (mydiskWrite_inRange_iff ready falls range).mpr serves
  rw [mydiskWrite_eq ready falls range gate] at run
  have served : ¬ checkParams d unset start buffer.length = 1 := by
    rw [@checkParams_congr d (d.twin (Flat.blankParts d.thefile.bytes start buffer.length)) unset start buffer.length rfl]
    exact checkParams_ne_one ready falls range gate
  cases loop : writeLoop (start % 512) (512 - start % 512) ((start % 512 + buffer.length) % 512) (decide (start % 512 ≠ 0))
      (endsInside start buffer.length) buffer (blocksVisited start buffer.length) 0 (start / 512)
      (d.twin (Flat.blankParts d.thefile.bytes start buffer.length)) with
  | error e =>
    rw [loop] at run
    cases run
  | ok e₁ =>
    rw [loop] at run
    obtain ⟨-, rfl⟩ := Prod.mk.inj (Except.ok.inj run)
    obtain ⟨d', loop', same⟩ := writeLoop_blank caching sized ready visits blanked loop
    refine ⟨size, d', ?_, same.trans bytes⟩
    rw [mydiskWrite, if_neg served]
    exact congrArg (fun x : Outcome Disk => x >>= fun d => .ok (0, d)) loop'

/-! ### Calls -/

theorem Shows.sized (shown : Shows nblocks d ref) (small : nblocks * 512 < 2 ^ 30) : Sized d nblocks :=
  ⟨shown.maxBlocks, shown.bytes ▸ shown.size, Nat.lt_trans small (by decide)⟩

theorem Shows.ready (shown : Shows nblocks d ref) (small : nblocks * 512 < 2 ^ 30) (off : ref.cached = false) :
    Ready d nblocks := ⟨shown.maxBlocks, shown.enabled.trans off, shown.bytes ▸ shown.size, small⟩

theorem Shows.caching (shown : Shows nblocks d ref) (on : ref.cached = true) : Caching d where
  enabled := shown.enabled.trans on
  slots := shown.queue.trans shown.slots.symm
  next := by
    rw [shown.slots]
    exact shown.next (shown.made on)

theorem Shows.stored {bytes : List UInt8} (shown : Shows nblocks d ref) (shape : SameShape d d')
    (same : d'.thefile.bytes = bytes) (size : bytes.length = nblocks * 512) : Shows nblocks d' { ref with bytes } where
  maxBlocks := shape.maxBlocks.trans shown.maxBlocks
  bytes := same
  size := size
  enabled := shape.enabled.trans shown.enabled
  made := shown.made
  slots := shape.slots.trans shown.slots
  queue := shape.queue.trans shown.queue
  next some := by
    have before := shape.next (by rw [shown.slots]; exact shown.next some)
    rwa [shown.slots] at before

theorem Shows.kept (shown : Shows nblocks d ref) (shape : SameShape d d') (same : d'.thefile.bytes = d.thefile.bytes) :
    Shows nblocks d' ref := shown.stored shape (same.trans shown.bytes) shown.size

theorem Shows.inRange_iff (shown : Shows nblocks d ref) (startAddress nbytes : Int) :
    InRange d startAddress nbytes ↔ Inside nblocks startAddress nbytes := by
  rw [InRange, Inside, shown.maxBlocks]

/-- A range that is not inside is refused, with or without the cache. -/
theorem Shows.refuses (shown : Shows nblocks d ref) (small : nblocks * 512 < 2 ^ 30) {unset startAddress nbytes : Int}
    (falls : unset ≠ 1) (outside : ¬ Inside nblocks startAddress nbytes) : checkParams d unset startAddress nbytes = 1 := by
  rw [@checkParams_congr d (d.twin ref.bytes) unset startAddress nbytes rfl]
  refine (checkParams_eq_one_iff _ _ ((shown.sized small).twin small shown.size) falls).mpr (.inl fun inside => outside ?_)
  exact (shown.inRange_iff startAddress nbytes).mp inside

theorem BlockCall.run_shows {c : BlockCall} (shown : Shows nblocks d ref) (small : nblocks * 512 < 2 ^ 30)
    (low : 0 ≤ c.blockId) (other : c.blockId ≠ nblocks) :
    ∃ d', (Call.block c).run d = .ok ([((Call.block c).reply nblocks ref).1], d') ∧
      Shows nblocks d' ((Call.block c).reply nblocks ref).2 := by
  have capacity := shown.maxBlocks
  have sized := shown.sized small
  by_cases outside : c.blockId > nblocks
  · have refused := @BlockCall.run_of_gt d c (by omega)
    refine ⟨d, ?_, ?_⟩
    · rw [Call.run, refused, ok_bind, Call.reply, if_pos outside]
    · rw [Call.reply, if_pos outside]
      exact shown
  · obtain ⟨b, id⟩ := Int.eq_ofNat_of_zero_le low
    have inside : b < nblocks := by omega
    rw [Call.reply, if_neg outside]
    cases c with
    | read blockId buffer =>
      obtain rfl : blockId = b := id
      cases on : ref.cached with
      | true =>
        obtain ⟨r, d', read, bytes, zero⟩ := mydiskReadBlock_cached (shown.caching on) (b : Int) buffer.toList
        obtain rfl := zero (by omega)
        refine ⟨d', ?_, shown.kept (mydiskReadBlock_shape read) bytes⟩
        rw [Call.run, BlockCall.run, read, ok_bind, BlockCall.serve, if_pos on]
      | false =>
        have read := mydiskReadBlock_ok sized (shown.enabled.trans on) inside buffer.length_toList
        have off : ¬ ref.cached = true := by rw [on]; exact Bool.false_ne_true
        refine ⟨_, ?_, shown.kept (mydiskReadBlock_shape read) rfl⟩
        rw [Call.run, BlockCall.run, read, ok_bind, BlockCall.serve, if_neg off, shown.bytes, Int.toNat_natCast]
    | write blockId buffer =>
      obtain rfl : blockId = b := id
      have length := buffer.length_toList
      have bound : 512 * b + buffer.toList.length ≤ ref.bytes.length := by
        rw [length, shown.size]
        omega
      have written := @mydiskWriteBlock_ok d nblocks b buffer.toList sized inside
      have shape := mydiskWriteBlock_shape d b buffer.toList
      rw [written] at shape
      refine ⟨_, ?_, shown.stored shape ?_ ((length_overlay bound).trans shown.size)⟩
      · rw [Call.run, BlockCall.run, written]
        rfl
      · rw [store_bytes, shown.bytes]
        rfl

theorem Call.read_shows {unset startAddress nbytes : Int} (shown : Shows nblocks d ref) (small : nblocks * 512 < 2 ^ 30)
    (suits : (Call.read unset startAddress nbytes buffer).Suits nblocks ref) :
    ∃ d', (Call.read unset startAddress nbytes buffer).run d =
        .ok ([((Call.read unset startAddress nbytes buffer).reply nblocks ref).1], d') ∧
      Shows nblocks d' ((Call.read unset startAddress nbytes buffer).reply nblocks ref).2 := by
  obtain ⟨falls, serves⟩ := suits
  by_cases inside : Inside nblocks startAddress nbytes
  · obtain ⟨room, serves⟩ := serves inside
    obtain ⟨start, rfl⟩ := Int.eq_ofNat_of_zero_le inside.1
    obtain ⟨n, rfl⟩ := Int.eq_ofNat_of_zero_le inside.2.1
    have range : start + n ≤ nblocks * 512 := by
      have := inside.2.2
      omega
    have room : n ≤ buffer.length := by omega
    rw [Int.toNat_natCast, Int.toNat_natCast] at serves
    suffices served : ∃ d', mydiskRead d unset start n buffer = .ok (0, overlay buffer 0 ((ref.seen.drop start).take n), d') ∧
        d'.thefile.bytes = d.thefile.bytes by
      obtain ⟨d', read, bytes⟩ := served
      refine ⟨d', ?_, ?_⟩
      · rw [Call.run, read, Call.reply, if_pos inside]
        rfl
      · rw [Call.reply, if_pos inside]
        exact shown.kept (mydiskRead_shape read) bytes
    cases on : ref.cached with
    | true =>
      have seen : ref.seen = List.replicate ref.bytes.length 0 := if_pos on
      have length : ref.seen.length = nblocks * 512 := by rw [seen, List.length_replicate, shown.size]
      have ready := (shown.sized small).twin small length
      obtain ⟨e', run, -⟩ := (mydiskRead_inRange_iff ready falls range room).mpr serves
      exact mydiskRead_blank (e := d.twin ref.seen) (shown.caching on) rfl seen rfl run
    | false =>
      have seen : ref.seen = d.thefile.bytes := (if_neg (by rw [on]; exact Bool.false_ne_true)).trans shown.bytes.symm
      rw [seen] at serves ⊢
      exact (mydiskRead_inRange_iff (shown.ready small on) falls range room).mpr serves
  · refine ⟨d, ?_, ?_⟩
    · rw [Call.run, mydiskRead, if_pos (shown.refuses small falls inside), Call.reply, if_neg inside]
      rfl
    · rw [Call.reply, if_neg inside]
      exact shown

theorem Call.write_shows {unset startAddress nbytes : Int} (shown : Shows nblocks d ref) (small : nblocks * 512 < 2 ^ 30)
    (suits : (Call.write unset startAddress nbytes buffer).Suits nblocks ref) :
    ∃ d', (Call.write unset startAddress nbytes buffer).run d =
        .ok ([((Call.write unset startAddress nbytes buffer).reply nblocks ref).1], d') ∧
      Shows nblocks d' ((Call.write unset startAddress nbytes buffer).reply nblocks ref).2 := by
  obtain ⟨falls, serves⟩ := suits
  by_cases inside : Inside nblocks startAddress nbytes
  · obtain ⟨length, serves⟩ := serves inside
    obtain ⟨start, rfl⟩ := Int.eq_ofNat_of_zero_le inside.1
    obtain ⟨n, rfl⟩ := Int.eq_ofNat_of_zero_le inside.2.1
    rw [Int.toNat_natCast] at length
    subst length
    have range : start + buffer.length ≤ nblocks * 512 := by
      have := inside.2.2
      omega
    rw [Int.toNat_natCast, Int.toNat_natCast] at serves
    suffices served : (ref.base start buffer.length).length = nblocks * 512 ∧ ∃ d',
        mydiskWrite d unset start buffer.length buffer =
        .ok (0, d') ∧ d'.thefile.bytes = overlay (ref.base start buffer.length) start buffer by
      obtain ⟨size, d', written, bytes⟩ := served
      refine ⟨d', ?_, ?_⟩
      · rw [Call.run, written, Call.reply, if_pos inside]
        rfl
      · rw [Call.reply, if_pos inside]
        exact shown.stored (mydiskWrite_shape written) bytes ((length_overlay (size.symm ▸ range)).trans size)
    cases on : ref.cached with
    | true =>
      have base : ref.base start buffer.length = Flat.blankParts d.thefile.bytes start buffer.length := by
        rw [Flat.base, if_pos on, shown.bytes]
      rw [base] at serves ⊢
      exact mydiskWrite_blank (shown.caching on) (shown.sized small) small falls range serves
    | false =>
      have base : ref.base start buffer.length = d.thefile.bytes := by
        rw [Flat.base, if_neg (by rw [on]; exact Bool.false_ne_true), shown.bytes]
      rw [base] at serves ⊢
      have ready := shown.ready small on
      exact ⟨ready.size, (mydiskWrite_inRange_iff ready falls range).mpr serves⟩
  · refine ⟨d, ?_, ?_⟩
    · rw [Call.run, mydiskWrite, if_pos (shown.refuses small falls inside), Call.reply, if_neg inside]
      rfl
    · rw [Call.reply, if_neg inside]
      exact shown

/-- The cache is turned on or off. -/
theorem Shows.switched {cached : Bool} (shown : Shows nblocks d ref) (made : cached = true → 1 ≤ ref.slots) :
    Shows nblocks { d with cacheEnabled := cached } { ref with cached } where
  maxBlocks := shown.maxBlocks
  bytes := shown.bytes
  size := shown.size
  enabled := rfl
  made := made
  slots := shown.slots
  queue := shown.queue
  next := shown.next

theorem Call.run_shows {c : Call} (shown : Shows nblocks d ref) (small : nblocks * 512 < 2 ^ 30) (suits : c.Suits nblocks ref) :
    ∃ d', c.run d = .ok ([(c.reply nblocks ref).1], d') ∧ Shows nblocks d' (c.reply nblocks ref).2 := by
  cases c with
  | block c => exact BlockCall.run_shows shown small suits.1 suits.2
  | read unset startAddress nbytes buffer => exact Call.read_shows shown small suits
  | write unset startAddress nbytes buffer => exact Call.write_shows shown small suits
  | initCache slots =>
    have some : 1 ≤ slots := suits
    exact ⟨_, rfl, shown.maxBlocks, shown.bytes, shown.size, rfl, fun _ => some, rfl, List.length_replicate, fun _ => some⟩
  | closeCache => exact ⟨_, rfl, shown.switched fun on => absurd on Bool.false_ne_true⟩
  | disableCache => exact ⟨_, rfl, shown.switched fun on => absurd on Bool.false_ne_true⟩
  | enableCache => exact ⟨_, rfl, shown.switched fun _ => suits⟩
  | getCachedBlock blockId =>
    have some : 1 ≤ ref.slots := suits
    have slots := shown.slots
    refine ⟨{ d with cache := { d.cache with out := (d.cache.out + 1) % d.cache.cacheBlocks } }, ?_, shown.kept ?_ rfl⟩
    · rw [run, Mydisk.getCachedBlock, if_neg (by omega), ok_bind]
      rfl
    · exact ⟨rfl, rfl, rfl, rfl, id⟩
  | createCachedBlock blockId =>
    have some : 1 ≤ ref.slots := suits
    have next := shown.next some
    have queue := shown.queue
    have slots := shown.slots
    obtain ⟨index, cache, made⟩ : ∃ index cache, Mydisk.createCachedBlock d.cache blockId = .ok (index, cache) :=
      ⟨_, _, if_pos (by omega)⟩
    obtain ⟨kept, length, moved⟩ := createCachedBlock_shape made
    refine ⟨{ d with cache }, ?_, shown.kept ⟨rfl, rfl, kept, length, fun _ => moved (by omega)⟩ rfl⟩
    rw [run, made, ok_bind]
    rfl
  | markDirty blockId => exact ⟨d, rfl, shown⟩

theorem shows_start (nblocks : Nat) (type : Int) : Shows nblocks (mydiskInit .initial true nblocks type).2 (.blank nblocks) where
  maxBlocks := rfl
  bytes := mydiskInit_bytes ..
  size := by rw [Flat.blank, List.length_replicate, Nat.mul_comm]
  enabled := rfl
  made on := by cases on
  slots := rfl
  queue := rfl
  next some := by cases some

/-- Every run of calls on a new disk, with the cache on and off, answers as the array of bytes does, and leaves its
bytes in the file. -/
theorem flat_answers (small : nblocks * 512 < 2 ^ 30) (type : Int) {calls : List Call}
    (meets : Meets (alongside Call.run (Call.reply nblocks)) (fun c w => c.Suits nblocks w.2) calls
      ((mydiskInit .initial true nblocks type).2, .blank nblocks)) :
    answers Call.run calls (mydiskInit .initial true nblocks type).2 = .ok (predict (Call.reply nblocks) calls (.blank nblocks)) ∧
      ∃ d ref, runAll (alongside Call.run (Call.reply nblocks)) calls
          ((mydiskInit .initial true nblocks type).2, .blank nblocks) =
        .ok (d, ref) ∧ d.thefile.bytes = ref.bytes := by
  have step : ∀ (c : Call) d ref, Shows nblocks d ref → c.Suits nblocks ref →
      ∃ d', c.run d = .ok ([(c.reply nblocks ref).1], d') ∧ Shows nblocks d' (c.reply nblocks ref).2 :=
    fun _ _ _ shown suits => Call.run_shows shown small suits
  obtain ⟨answered, d, ref, run, shown⟩ := answers_predicted (Shows nblocks) step (shows_start nblocks type) meets
  exact ⟨answered, d, ref, run, shown.bytes⟩

instance (bytes : List UInt8) (nblocks start n : Nat) (out : List UInt8) : Decidable (ReadServes bytes nblocks start n out) :=
  inferInstanceAs (Decidable (_ ∧ (_ → _ → _) ∧ (_ → _) ∧ (_ → _) ∧ _))

instance (start n : Nat) : Decidable (SourceFits start n) :=
  inferInstanceAs (Decidable (if start % 512 = 0 then 1024 ≤ n else 512 - start % 512 ≤ n))

instance (bytes : List UInt8) (nblocks start : Nat) (buffer : List UInt8) : Decidable (WriteServes bytes nblocks start buffer) :=
  inferInstanceAs (Decidable (_ ∧ _ ∧ _))

instance (nblocks : Nat) : ∀ (c : Call) (ref : Flat), Decidable (c.Suits nblocks ref)
  | .block _, _ => inferInstanceAs (Decidable (_ ∧ _))
  | .read .., _ => inferInstanceAs (Decidable (_ ∧ (_ → _ ∧ _)))
  | .write .., _ => inferInstanceAs (Decidable (_ ∧ (_ → _ ∧ _)))
  | .initCache _, _ => inferInstanceAs (Decidable (1 ≤ _))
  | .enableCache, _ => inferInstanceAs (Decidable (1 ≤ _))
  | .getCachedBlock _, _ => inferInstanceAs (Decidable (1 ≤ _))
  | .createCachedBlock _, _ => inferInstanceAs (Decidable (1 ≤ _))
  | .closeCache, _ => .isTrue trivial
  | .disableCache, _ => .isTrue trivial
  | .markDirty _, _ => .isTrue trivial

def overwrites : List Call :=
  [.write 0 496 16 (List.replicate 16 7), .read 0 496 16 (List.replicate 16 1), .initCache 1,
    .read 0 496 16 (List.replicate 16 1), .write 0 500 12 (List.replicate 12 8), .closeCache,
    .read 0 496 16 (List.replicate 16 1)]

/-- With the cache on the four bytes before the range are lost. -/
theorem overwrites_answers : answers Call.run overwrites (mydiskInit .initial true (2 : Nat) 0).2 =
    .ok [(0, List.replicate 16 7), (0, List.replicate 16 7), (0, []), (0, List.replicate 16 0), (0, List.replicate 12 8), (0, []),
      (0, List.replicate 4 0 ++ List.replicate 12 8)] :=
  (flat_answers (by decide) 0 (by decide +kernel)).1.trans (by decide +kernel)

end StorageStack.Mydisk
