import Mathlib.Data.List.Chain
import StorageStack.Lib.Bytes
import StorageStack.Lib.Outcome
import StorageStack.Lib.Ring

/-!
# The ring of the cache

Every call of `create_cached_block` stores a new entry in the next slot, whether the block has one or not, moves on
and returns the slot it has come to. The slots are right, what the calls return is not.
-/

namespace StorageStack.Mydisk.Ring
open Lib

/-! ### `caching.c` with the contents of the entries -/

/-- `struct cache_entry`. -/
structure CacheEntry where
  blockId : Int
  isDirty : Int
  content : Bytes 512

/-- The globals of `caching.c`. -/
structure Cache where
  cacheBlocks : Nat
  next : Nat          -- `in`
  out : Nat
  queue : List CacheEntry

def initCache (nblocks : Nat) : Cache := ⟨nblocks, 0, 0, List.replicate nblocks ⟨0, 0, .zero⟩⟩

/-- The initializer takes the first byte of the local `emptyBlock`, which nothing has stored to. -/
def newBlock (blockId : Int) (emptyBlock : Bytes 512) : CacheEntry := ⟨blockId, 0, Bytes.zero.patch 0 [emptyBlock.get 0]⟩

/-- The index of the entry that is returned, and the cache after the call. -/
def createCachedBlock (c : Cache) (emptyBlock : Bytes 512) (blockId : Int) : Outcome (Nat × Cache) :=
  if c.next < c.queue.length then
    let next := (c.next + 1) % c.cacheBlocks
    .ok (next, { c with queue := c.queue.set c.next (newBlock blockId emptyBlock), next })
  else .error .undefined

/-! ### Calls -/

/-- A call, with what its local holds. -/
structure Request where
  emptyBlock : Bytes 512
  blockId : Int

def Request.entry (r : Request) : CacheEntry := newBlock r.blockId r.emptyBlock

/-- The ring after the entries `xs` were stored in it. -/
structure Filled (k : Nat) (c : Cache) (xs : List CacheEntry) : Prop where
  blocks : c.cacheBlocks = k
  slots : c.queue.length = k
  holds : RingHolds c.queue c.next xs

variable {k : Nat} {c c' : Cache} {xs : List CacheEntry} {r : Request} {requests : List Request} {ids : List Int}

theorem initCache_filled (k : Nat) : Filled k (initCache k) [] := ⟨rfl, List.length_replicate, RingHolds.empty _⟩

theorem createCachedBlock_filled (filled : Filled k c xs) (some : 1 ≤ k) (r : Request) :
    ∃ c', createCachedBlock c r.emptyBlock r.blockId = .ok ((xs.length + 1) % k, c') ∧ Filled k c' (xs ++ [r.entry]) := by
  have slots := filled.slots
  have here := filled.holds.next_lt (by omega)
  have pushed := filled.holds.push (by omega) r.entry
  have index : (c.next + 1) % k = (xs.length + 1) % k := by rw [filled.holds.next, slots, Nat.mod_add_mod]
  refine ⟨{ c with queue := c.queue.set c.next r.entry, next := (xs.length + 1) % k }, ?_, filled.blocks,
    List.length_set.trans slots, ?_⟩
  · rw [createCachedBlock, if_pos here, filled.blocks, index]
    rfl
  · rwa [slots, index] at pushed

/-! ### What the calls are meant to do -/

/-- The entries of the queue, the oldest one first. -/
def latest (k : Nat) (xs : List CacheEntry) : List CacheEntry := xs.drop (xs.length - k)

/-- A block that has an entry in the queue keeps it, another one gets a new entry. -/
def insert (k : Nat) (xs : List CacheEntry) (r : Request) : List CacheEntry :=
  if r.blockId ∈ (latest k xs).map (·.blockId) then xs else xs ++ [r.entry]

/-- The queue holds the latest of the entries `xs`, and slot `i` the one among them that is for the block. -/
structure Serves (k : Nat) (xs : List CacheEntry) (blockId : Int) (i : Nat) (c : Cache) : Prop where
  next : c.next < k
  slots : c.queue.length = k
  holds : RingHolds c.queue c.next xs
  returned : ∃ j e, xs[j]? = some e ∧ xs.length ≤ j + k ∧ e.blockId = blockId ∧ i = j % k

/-- Each call of the run serves its block, with `xs` inserted before. -/
def ServesAll (k : Nat) : List Request → List CacheEntry → Cache → Prop
  | [], _, _ => True
  | r :: requests, xs, c => ∃ i c', createCachedBlock c r.emptyBlock r.blockId = .ok (i, c') ∧
      Serves k (insert k xs r) r.blockId i c' ∧ ServesAll k requests (insert k xs r) c'

/-- The calls for the ids behave as a cache of `k` blocks, whatever the locals hold. -/
def RingKept (k : Nat) (ids : List Int) : Prop :=
  ∀ requests : List Request, requests.map Request.blockId = ids → ServesAll k requests [] (initCache k)

theorem latest_one (e : CacheEntry) : latest 1 (xs ++ [e]) = [e] := by
  rw [latest, List.length_append, List.length_singleton, Nat.add_sub_cancel, List.drop_left]

theorem insert_nil (k : Nat) (r : Request) : insert k [] r = [r.entry] := by
  rw [insert, latest, List.drop_nil, List.map_nil, if_neg List.not_mem_nil, List.nil_append]

theorem insert_new (new : r.blockId ∉ (latest k xs).map (·.blockId)) : insert k xs r = xs ++ [r.entry] := if_neg new

/-- With two slots or more the slot that the first call returns has no entry. -/
theorem ServesAll.one (some : 1 ≤ k) (serves : ServesAll k (r :: requests) [] (initCache k)) : k = 1 := by
  obtain ⟨i, c', made, served, -⟩ := serves
  obtain ⟨c₁, made₁, -⟩ := createCachedBlock_filled (initCache_filled k) some r
  obtain ⟨rfl, rfl⟩ := Prod.mk.inj (Except.ok.inj (made₁.symm.trans made))
  obtain ⟨j, e, at_, -, -, same⟩ := served.returned
  rw [insert_nil] at at_
  obtain ⟨inside, -⟩ := List.getElem?_eq_some_iff.mp at_
  obtain rfl : j = 0 := Nat.lt_one_iff.mp inside
  rw [List.length_nil, Nat.zero_add, Nat.zero_mod] at same
  by_contra more
  rw [Nat.mod_eq_of_lt (by omega)] at same
  cases same

/-- A call for the block in the only slot stores a new entry over the old one. -/
theorem ServesAll.same_entry {e : CacheEntry} (filled : Filled 1 c (xs ++ [e])) (hit : r.blockId = e.blockId)
    (serves : ServesAll 1 (r :: requests) (xs ++ [e]) c) : r.entry = e := by
  obtain ⟨i, c', made, served, -⟩ := serves
  obtain ⟨c₁, made₁, filled₁⟩ := createCachedBlock_filled filled (Nat.le_refl 1) r
  obtain ⟨rfl, rfl⟩ := Prod.mk.inj (Except.ok.inj (made₁.symm.trans made))
  have kept : insert 1 (xs ++ [e]) r = xs ++ [e] := if_pos (by rw [latest_one, hit]; exact List.mem_singleton_self _)
  have size : (xs ++ [e]).length = xs.length + 1 := List.length_append
  have size₁ : (xs ++ [e] ++ [r.entry]).length = (xs ++ [e]).length + 1 := List.length_append
  have old := served.holds.latest xs.length (by rw [kept]; omega) (by rw [kept, served.slots]; omega)
  have new := filled₁.holds.latest (xs ++ [e]).length (by omega) (by rw [filled₁.slots]; omega)
  rw [kept, List.getElem?_concat_length, served.slots, Nat.mod_one] at old
  rw [List.getElem?_concat_length, served.slots, Nat.mod_one, old] at new
  exact (Option.some.inj new).symm

/-- Calls for the ids whose locals are filled with other bytes each time. -/
def marked (v : UInt8) : List Int → List Request
  | [] => []
  | blockId :: ids => ⟨⟨fun _ => v⟩, blockId⟩ :: marked (v + 1) ids

theorem marked_blockId (v : UInt8) (ids : List Int) : (marked v ids).map Request.blockId = ids := by
  induction ids generalizing v with
  | nil => rfl
  | cons blockId ids ih => rw [marked, List.map_cons, ih]

theorem entry_marked_inj {v v' : UInt8} {blockId blockId' : Int}
    (same : Request.entry ⟨⟨fun _ => v⟩, blockId⟩ = Request.entry ⟨⟨fun _ => v'⟩, blockId'⟩) : v = v' := by
  have content := congrArg (fun e => e.content.get 0) same
  dsimp only [Request.entry, newBlock] at content
  rw [Bytes.get_patch, Bytes.get_patch, if_pos ⟨by decide, Nat.le_refl 0, Nat.zero_lt_one⟩,
    if_pos ⟨by decide, Nat.le_refl 0, Nat.zero_lt_one⟩] at content
  exact content

theorem chain_of_marked {v : UInt8} {blockId : Int} (filled : Filled 1 c (xs ++ [Request.entry ⟨⟨fun _ => v⟩, blockId⟩]))
    (serves : ServesAll 1 (marked (v + 1) ids) (xs ++ [Request.entry ⟨⟨fun _ => v⟩, blockId⟩]) c) :
    (blockId :: ids).IsChain (· ≠ ·) := by
  induction ids generalizing v blockId xs c with
  | nil => exact List.isChain_singleton _
  | cons next ids ih =>
    have other : blockId ≠ next := by
      intro same
      have bytes := entry_marked_inj (ServesAll.same_entry filled same.symm serves)
      simp at bytes
    refine List.isChain_cons_cons.mpr ⟨other, ?_⟩
    obtain ⟨i, c', made, -, rest⟩ := serves
    obtain ⟨c₁, made₁, filled₁⟩ := createCachedBlock_filled filled (Nat.le_refl 1) ⟨⟨fun _ => v + 1⟩, next⟩
    obtain ⟨rfl, rfl⟩ := Prod.mk.inj (Except.ok.inj (made₁.symm.trans made))
    rw [insert_new (by rw [latest_one]; exact fun there => other (List.mem_singleton.mp there).symm)] at rest
    exact ih filled₁ rest

/-- The only slot always has the entry of the last call. -/
theorem servesAll_one (filled : Filled 1 c xs) (new : ∀ e ∈ latest 1 xs, ∀ b ∈ (requests.map Request.blockId).head?, e.blockId ≠ b)
    (chain : (requests.map Request.blockId).IsChain (· ≠ ·)) : ServesAll 1 requests xs c := by
  induction requests generalizing xs c with
  | nil => trivial
  | cons r requests ih =>
    obtain ⟨c', made, filled'⟩ := createCachedBlock_filled filled (Nat.le_refl 1) r
    have absent : r.blockId ∉ (latest 1 xs).map (·.blockId) := by
      intro there
      obtain ⟨e, member, same⟩ := List.mem_map.mp there
      exact new e member r.blockId rfl same
    refine ⟨_, c', made, ?_, ?_⟩
    · rw [insert_new absent]
      have slots := filled'.slots
      have next := filled'.holds.next_lt (by omega)
      refine ⟨by omega, slots, filled'.holds, xs.length, r.entry, List.getElem?_concat_length, ?_, rfl, ?_⟩
      · rw [List.length_append, List.length_singleton]
      · rw [Nat.mod_one, Nat.mod_one]
    · rw [insert_new absent]
      rw [List.map_cons, List.isChain_cons] at chain
      refine ih filled' (fun e member b first => ?_) chain.2
      rw [latest_one, List.mem_singleton] at member
      rw [member]
      exact chain.1 b first

/-- The ring is a cache if and only if there is one slot and no id is asked for twice in a row. -/
theorem ring_kept_iff (some : 1 ≤ k) (ids : List Int) : RingKept k ids ↔ ids = [] ∨ k = 1 ∧ ids.IsChain (· ≠ ·) := by
  constructor
  · intro kept
    cases ids with
    | nil => exact .inl rfl
    | cons blockId ids =>
      have serves := kept (marked 0 (blockId :: ids)) (marked_blockId 0 _)
      obtain rfl := serves.one some
      obtain ⟨i, c', made, -, rest⟩ := serves
      obtain ⟨c₁, made₁, filled₁⟩ := createCachedBlock_filled (initCache_filled 1) (Nat.le_refl 1) ⟨⟨fun _ => 0⟩, blockId⟩
      obtain ⟨rfl, rfl⟩ := Prod.mk.inj (Except.ok.inj (made₁.symm.trans made))
      rw [insert_nil] at rest
      exact .inr ⟨rfl, chain_of_marked filled₁ rest⟩
  · intro fine requests same
    rcases fine with rfl | ⟨rfl, chain⟩
    · obtain rfl := List.map_eq_nil_iff.mp same
      trivial
    · exact servesAll_one (initCache_filled 1) (fun e member => absurd member List.not_mem_nil) (same ▸ chain)

theorem one_slot_kept : RingKept 1 [5, 7, 5] := (ring_kept_iff (Nat.le_refl 1) [5, 7, 5]).mpr (.inr ⟨rfl, by decide⟩)

/-- With two slots the first call returns the empty one. -/
theorem two_slots_miss : ¬ ∀ (k : Nat) (ids : List Int), 1 ≤ k → RingKept k ids := by
  intro claim
  have serves := claim 2 [5] (by decide) [⟨.zero, 5⟩] rfl
  exact absurd (serves.one (by decide)) (by decide)

end StorageStack.Mydisk.Ring
