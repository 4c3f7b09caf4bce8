import Mathlib.Data.List.Forall2
import StorageStack.Mydisk.Device

/-!
# The block cache

With the cache on, a read makes an entry and reads the block from the file, but the bytes go to a temporary
that is freed. The buffer of the caller keeps what it had, so that no sequence with a read is transparent.
-/

namespace StorageStack.Mydisk
open Lib

def initCache (d : Disk) (nblocks : Nat) : Disk :=
  { d with cache := ⟨nblocks, 0, 0, List.replicate nblocks ⟨0, 0⟩⟩, cacheEnabled := true }

/-- What the buffers of the calls hold after each call. -/
def buffersAfter : List BlockCall → Disk → Outcome (List (List UInt8))
  | [], _ => .ok []
  | c :: calls, d => do
    let (_, buffer, d) ← c.run d
    .ok (buffer :: (← buffersAfter calls d))

/-- The same call, whatever the buffer of a read holds before it. -/
inductive BlockCall.Alike : BlockCall → BlockCall → Prop
  | read (blockId : Int) (buffer buffer' : Bytes 512) : Alike (.read blockId buffer) (.read blockId buffer')
  | write (blockId : Int) (buffer : Bytes 512) : Alike (.write blockId buffer) (.write blockId buffer)

/-- Whatever the buffers of the reads held, they are filled as without the cache. -/
def Transparent (d : Disk) (k : Nat) (calls : List BlockCall) : Prop :=
  ∀ calls', List.Forall₂ BlockCall.Alike calls calls' → buffersAfter calls' (initCache d k) = buffersAfter calls' d

def BlockCall.IsWrite : BlockCall → Prop
  | .read _ _ => False
  | .write _ _ => True

variable {d : Disk} {n k : Nat} {dev : Device} {c : BlockCall} {calls : List BlockCall}

/-! ### Without the cache -/

/-- The buffer after a call on a device. -/
def BlockCall.answer (dev : Device) : BlockCall → List UInt8
  | .read blockId _ => dev blockId
  | .write _ buffer => buffer.toList

def Device.answers : List BlockCall → Device → List (List UInt8)
  | [], _ => []
  | c :: calls, dev => c.answer dev :: Device.answers calls (c.store dev)

theorem BlockCall.run_write {r : Int} {blockId : Int} {b : Bytes 512} {buffer : List UInt8} {d' : Disk}
    (run : (BlockCall.write blockId b).run d = .ok (r, buffer, d')) : buffer = b.toList := by
  rw [BlockCall.run] at run
  have same := Except.ok.inj run
  generalize b.toList = bytes at same ⊢
  exact (congrArg (fun answer => answer.2.1) same).symm

theorem buffersAfter_uncached (sized : Sized d n) (uncached : d.cacheEnabled = false) (holds : Holds n d dev)
    (valid : ∀ c ∈ calls, Valid n c.blockId) : buffersAfter calls d = .ok (Device.answers calls dev) := by
  induction calls generalizing d dev with
  | nil => rfl
  | cons c calls ih =>
    obtain ⟨buffer, d', run, answer, sized', uncached', holds'⟩ :=
      BlockCall.run_holds sized uncached holds (valid c (List.mem_cons_self ..))
    have rest := ih sized' uncached' holds' fun c' member => valid c' (List.mem_cons_of_mem c member)
    rw [buffersAfter, run, ok_bind]
    dsimp only
    rw [rest, ok_bind, Device.answers]
    cases c with
    | read blockId b =>
      rw [answer blockId b rfl]
      rfl
    | write blockId b =>
      rw [BlockCall.run_write run]
      rfl

/-! ### With the cache -/

/-- The next entry of the queue exists. -/
structure Caching (d : Disk) : Prop where
  enabled : d.cacheEnabled = true
  slots : d.cache.queue.length = d.cache.cacheBlocks
  next : d.cache.next < d.cache.cacheBlocks

theorem initCache_caching (d : Disk) (slots : 1 ≤ k) : Caching (initCache d k) := by
  refine ⟨rfl, List.length_replicate, ?_⟩
  show 0 < k
  omega

theorem createCachedBlock_ok (caching : Caching d) (blockId : Int) :
    ∃ index cache, createCachedBlock d.cache blockId = .ok (index, cache) ∧ cache.queue.length = cache.cacheBlocks ∧
      cache.next < cache.cacheBlocks := by
  have next := caching.next
  have slots := caching.slots
  refine ⟨_, _, if_pos (by omega), ?_, Nat.mod_lt _ (by omega)⟩
  rw [List.length_set, slots]

theorem BlockCall.run_caching (caching : Caching d) (inside : c.blockId ≤ d.maxBlocks) :
    ∃ d', c.run d = .ok (0, c.buffer.toList, d') ∧ Caching d' ∧ d'.maxBlocks = d.maxBlocks := by
  cases c with
  | read blockId buffer =>
    obtain ⟨index, cache, made, slots, next⟩ := createCachedBlock_ok caching blockId
    have within : ¬ blockId > d.maxBlocks := not_lt.mpr inside
    rw [run, mydiskReadBlock]
    dsimp only
    rw [if_neg within, if_pos caching.enabled, made, ok_bind]
    exact ⟨_, rfl, ⟨caching.enabled, slots, next⟩, rfl⟩
  | write blockId buffer =>
    have within : ¬ blockId > d.maxBlocks := not_lt.mpr inside
    rw [run, mydiskWriteBlock, if_neg within]
    exact ⟨_, rfl, ⟨caching.enabled, caching.slots, caching.next⟩, rfl⟩

theorem buffersAfter_cached (caching : Caching d) (inside : ∀ c ∈ calls, c.blockId ≤ d.maxBlocks) :
    buffersAfter calls d = .ok (calls.map fun c => c.buffer.toList) := by
  induction calls generalizing d with
  | nil => rfl
  | cons c calls ih =>
    obtain ⟨d', run, caching', capacity⟩ := BlockCall.run_caching caching (inside c (List.mem_cons_self ..))
    have rest := ih caching' fun c' member => by
      rw [capacity]
      exact inside c' (List.mem_cons_of_mem c member)
    rw [buffersAfter, run, ok_bind]
    dsimp only
    rw [rest, ok_bind, List.map_cons]

/-! ### Transparency -/

/-- The same call with the buffer of a read filled with one byte. -/
def BlockCall.refill (v : UInt8) : BlockCall → BlockCall
  | .read blockId _ => .read blockId ⟨fun _ => v⟩
  | .write blockId buffer => .write blockId buffer

theorem BlockCall.alike_refill (c : BlockCall) (v : UInt8) : c.Alike (c.refill v) := by
  cases c with
  | read blockId buffer => exact .read ..
  | write blockId buffer => exact .write ..

theorem BlockCall.Alike.blockId {c c' : BlockCall} (alike : c.Alike c') : c'.blockId = c.blockId := by
  cases alike with
  | read => rfl
  | write => rfl

theorem alike_of_mem {calls calls' : List BlockCall} (alike : List.Forall₂ BlockCall.Alike calls calls') {c' : BlockCall}
    (member : c' ∈ calls') : ∃ c ∈ calls, c.Alike c' := by
  induction alike with
  | nil => exact absurd member List.not_mem_nil
  | cons same _ ih =>
    rcases List.mem_cons.mp member with rfl | member
    · exact ⟨_, List.mem_cons_self .., same⟩
    · obtain ⟨c, there, same⟩ := ih member
      exact ⟨c, List.mem_cons_of_mem _ there, same⟩

theorem refill_read_ne (blockId : Int) (buffer : Bytes 512) :
    ((BlockCall.read blockId buffer).refill 0).buffer.toList ≠ ((BlockCall.read blockId buffer).refill 1).buffer.toList := by
  intro same
  have first : ((BlockCall.read blockId buffer).refill 0).buffer.toList[0]? = _ := congrArg (fun bytes => bytes[0]?) same
  rw [Bytes.getElem?_toList _ (by decide), Bytes.getElem?_toList _ (by decide)] at first
  have differ : (0 : UInt8) = 1 := Option.some.inj first
  exact absurd differ (by decide)

theorem alike_map_refill (calls : List BlockCall) (v : UInt8) : List.Forall₂ BlockCall.Alike calls (calls.map (·.refill v)) := by
  rw [List.forall₂_map_right_iff, List.forall₂_same]
  exact fun c _ => c.alike_refill v

theorem answers_refill (calls : List BlockCall) (dev : Device) (v : UInt8) :
    Device.answers (calls.map (·.refill v)) dev = Device.answers calls dev := by
  induction calls generalizing dev with
  | nil => rfl
  | cons c calls ih =>
    cases c with
    | read blockId buffer => exact congrArg (dev blockId :: ·) (ih dev)
    | write blockId buffer => exact congrArg (buffer.toList :: ·) (ih _)

theorem answers_writes (writes : ∀ c ∈ calls, c.IsWrite) (dev : Device) :
    Device.answers calls dev = calls.map fun c => c.buffer.toList := by
  induction calls generalizing dev with
  | nil => rfl
  | cons c calls ih =>
    have rest := ih fun c' member => writes c' (List.mem_cons_of_mem c member)
    cases c with
    | read blockId buffer => exact absurd (writes _ (List.mem_cons_self ..)) id
    | write blockId buffer => exact congrArg (buffer.toList :: ·) (rest _)

/-- The cache is transparent to a sequence of valid calls if and only if none of them is a read. -/
theorem transparent_iff (sized : Sized d n) (uncached : d.cacheEnabled = false) (slots : 1 ≤ k)
    (valid : ∀ c ∈ calls, Valid n c.blockId) : Transparent d k calls ↔ ∀ c ∈ calls, c.IsWrite := by
  have holds : Holds n d fun blockId => block d.thefile.bytes blockId.toNat := fun b _ => rfl
  have capacity : (initCache d k).maxBlocks = n := sized.maxBlocks
  have alikeValid : ∀ {calls'}, List.Forall₂ BlockCall.Alike calls calls' → ∀ c ∈ calls', Valid n c.blockId := by
    intro calls' alike c member
    obtain ⟨c₀, member₀, same⟩ := alike_of_mem alike member
    rw [Valid, same.blockId]
    exact valid c₀ member₀
  have both : ∀ {calls'}, List.Forall₂ BlockCall.Alike calls calls' →
      (buffersAfter calls' (initCache d k) = buffersAfter calls' d ↔
        (calls'.map fun c => c.buffer.toList) = Device.answers calls' fun blockId => block d.thefile.bytes blockId.toNat) := by
    intro calls' alike
    rw [buffersAfter_uncached sized uncached holds (alikeValid alike),
      buffersAfter_cached (initCache_caching d slots) fun c member => by
        rw [capacity]
        exact (alikeValid alike c member).2.le]
    exact ⟨fun same => Except.ok.inj same, congrArg _⟩
  constructor
  · intro transparent c member
    have zeros := (both (alike_map_refill calls 0)).mp (transparent _ (alike_map_refill calls 0))
    have ones := (both (alike_map_refill calls 1)).mp (transparent _ (alike_map_refill calls 1))
    rw [answers_refill] at zeros ones
    have same := zeros.trans ones.symm
    rw [List.map_map, List.map_map] at same
    have here := List.map_inj_left.mp same c member
    rw [Function.comp_apply, Function.comp_apply] at here
    cases c with
    | write blockId buffer => trivial
    | read blockId buffer => exact absurd here (refill_read_ne blockId buffer)
  · intro writes calls' alike
    refine (both alike).mpr (answers_writes (fun c member => ?_) _).symm
    obtain ⟨c₀, member₀, same⟩ := alike_of_mem alike member
    have written := writes c₀ member₀
    cases same with
    | read => exact written
    | write => exact written

/-- Three writes to two blocks, with room for both in the cache. -/
theorem initial_transparent : Transparent (mydiskInit .initial true 2 0).2 2
    [.write 1 ⟨fun _ => 7⟩, .write 0 ⟨fun i => if i.val < 3 then 1 else 0⟩, .write 1 .zero] :=
  (transparent_iff (mydiskInit_sized .initial (by decide) 0) rfl (by decide) (by decide)).mpr (by simp [BlockCall.IsWrite])

/-- A buffer of ones is left as it is, where the block of a new disk is all zeros. -/
theorem read_not_transparent : ¬ Transparent (mydiskInit .initial true 1 0).2 1 [.read 0 ⟨fun _ => 1⟩] := by
  intro transparent
  have valid : ∀ c ∈ [BlockCall.read 0 ⟨fun _ => 1⟩], Valid 1 c.blockId := by
    intro c member
    obtain rfl := List.mem_singleton.mp member
    decide
  exact (transparent_iff (mydiskInit_sized .initial (by decide) 0) rfl (by decide) valid).mp transparent _ (List.mem_cons_self ..)

end StorageStack.Mydisk
