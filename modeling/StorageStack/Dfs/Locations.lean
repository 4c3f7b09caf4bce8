import StorageStack.Dfs.Registration

/-!
# The locations that are handed out

A block below `blocknum` is placed on a datanode that has registered, at an address it had registered. Blocks
are placed from `blocknum` on and at least as far as the new `blocknum`, which keeps this so.
-/

namespace StorageStack.Dfs
open Lib CString

/-- Block `k` of a file, at an address that its datanode has registered. -/
structure Located (h : History) (n : Namenode) (name : List UInt8) (k : Nat) (block : BlockDesc) : Prop where
  blockId : block.blockId = k
  owner : cstr block.ownerName = .ok name
  node : ∃ index : Fin MAX_DATANODE_NUM, block.dnId - 1 = index.val ∧ (n.dnlist index).isSome
  address : ∃ status ip reply, (Event.heartbeat status ip, reply) ∈ h ∧ status.datanodeId = block.dnId ∧
    status.datanodeId < MAX_DATANODE_NUM ∧ cstr block.locIp = .ok ip.text.bytes ∧ block.locPort = ntohs status.datanodeListenPort

/-- All blocks of a file are located under its name. -/
def Locates (h : History) (n : Namenode) (image : FileDesc) : Prop :=
  ∀ name, cstr image.filename = .ok name → ∀ j : Nat, (j : Int) < image.blocknum → Located h n name j (image.entry j)

variable {n n' : Namenode} {r : ClientReq} {name : List UInt8} {h : History} {e : Event} {reply : Option Reply}
  {fileBlock : Int → BlockDesc} {image image' : FileDesc} {i : Fin MAX_FILE_COUNT} {k : Nat} {block : BlockDesc}

theorem Located.later (located : Located h n name k block) (event : Event × Option Reply)
    (registered : ∀ index, (n.dnlist index).isSome → (n'.dnlist index).isSome) : Located (event :: h) n' name k block := by
  obtain ⟨blockId, owner, ⟨index, id, there⟩, status, ip, reply, member, same, accepted, address, port⟩ := located
  refine ⟨blockId, owner, ⟨index, id, registered index there⟩, ?_⟩
  exact ⟨status, ip, reply, List.mem_cons_of_mem event member, same, accepted, address, port⟩

theorem Locates.later (locates : Locates h n image) (event : Event × Option Reply)
    (registered : ∀ index, (n.dnlist index).isSome → (n'.dnlist index).isSome) : Locates (event :: h) n' image := by
  intro name string j below
  exact (locates name string j below).later event registered

theorem latest_mem {index : Fin MAX_DATANODE_NUM} {status : DatanodeStatus} {ip : IpString}
    (found : latest h index = some (status, ip)) :
    status.datanodeId = index.val + 1 ∧ status.datanodeId < MAX_DATANODE_NUM ∧ ∃ reply,
      (Event.heartbeat status ip, reply) ∈ h := by
  induction h with
  | nil => cases found
  | cons event h ih =>
    obtain ⟨e, reply⟩ := event
    have behind : latest h index = some (status, ip) → status.datanodeId = index.val + 1 ∧ status.datanodeId < MAX_DATANODE_NUM ∧
        ∃ reply', (Event.heartbeat status ip, reply') ∈ (e, reply) :: h := by
      intro found
      obtain ⟨id, accepted, reply', member⟩ := ih found
      exact ⟨id, accepted, reply', List.mem_cons_of_mem _ member⟩
    cases e with
    | request r fileBlock => exact behind found
    | heartbeat status' ip' =>
      rw [latest] at found
      split at found
      case isTrue here =>
        obtain ⟨rfl, rfl⟩ := Prod.mk.inj (Option.some.inj found)
        exact ⟨here.1, here.2, reply, List.mem_cons_self ..⟩
      case isFalse => exact behind found

theorem Placed.located (registration : Registration h n)
    (placed : Placed n name fileBlock k block) : Located h n name k block := by
  obtain ⟨owner, id, -, index, datanode, entry, dnId, locIp, locPort⟩ := placed
  have entries := registration.entries index
  rw [entry] at entries
  obtain ⟨⟨status, ip⟩, found, same⟩ := Option.map_eq_some_iff.mp entries.symm
  obtain ⟨statusId, accepted, reply, member⟩ := latest_mem found
  subst same
  refine ⟨id, owner, ⟨index, by omega, ?_⟩, status, ip, reply, member, by omega, accepted, locIp, locPort⟩
  rw [entry]
  rfl

theorem Extended.locates (registration : Registration h n) (place : Place n r name i image)
    (extended : Extended n name image image')
    (before : ∀ i image, n.fileImages i = some image → Locates h n image) : Locates h n image' := by
  intro name' string j below
  obtain rfl : name' = name := Except.ok.inj (string.symm.trans extended.filename)
  rcases extended.blocks j with ⟨kept, outside⟩ | ⟨fileBlock, placed⟩
  · have old : (j : Int) < image.blocknum := by omega
    rw [kept]
    cases place with
    | old there => exact before i image there.entry name' there.name j old
    | new _ _ _ _ empty _ => omega
  · exact placed.located registration

theorem Handled.locates (registration : Registration h n) (handled : Handled n r name reply n')
    (before : ∀ i image, n.fileImages i = some image → Locates h n image) :
    (∀ i image, n'.fileImages i = some image → Locates h n image) ∧ ∀ image, reply = some (.file image) → Locates h n image := by
  cases handled with
  | found i image _ there =>
    refine ⟨before, ?_⟩
    intro image' same
    cases same
    exact before i image there.entry
  | stored i image image' _ place extended _ =>
    have located := extended.locates registration place before
    constructor
    · intro j other entry
      dsimp only at entry
      by_cases here : j = i
      · rw [here, Function.update_self] at entry
        exact Option.some.inj entry ▸ located
      · rw [Function.update_of_ne here] at entry
        exact before j other entry
    · intro other same
      cases same
      exact located
  | _ =>
    refine ⟨before, ?_⟩
    intro image same
    cases same

theorem Reaches.locates (reached : Reaches h n) :
    (∀ i image, n.fileImages i = some image → Locates h n image) ∧ ∀ e image,
      (e, some (.file image)) ∈ h → Locates h n image := by
  induction reached with
  | initial =>
    constructor
    · intro i image entry
      cases entry
    · intro e image member
      cases member
  | @step h n n' e reply before fine run ih =>
    obtain ⟨images, replies⟩ := ih
    obtain ⟨registered, now⟩ : (∀ index, (n.dnlist index).isSome → (n'.dnlist index).isSome) ∧
        (∀ i image, n'.fileImages i = some image → Locates h n image) ∧ ∀ image,
          reply = some (.file image) → Locates h n image := by
      cases before.happened fine run with
      | heartbeat same registered =>
        refine ⟨registered, same.symm ▸ images, ?_⟩
        intro image none
        cases none
      | request name string handled =>
        refine ⟨?_, handled.locates before.holds.2 images⟩
        rw [handled.frame.1]
        exact fun _ => id
    constructor
    · intro i image entry
      exact (now.1 i image entry).later _ registered
    · intro e' image member
      rcases List.mem_cons.mp member with same | member
      · exact (now.2 image (Prod.mk.inj same).2.symm).later _ registered
      · exact (replies e' image member).later _ registered

/-- In every state that is reached the blocks of the table are located, and so are those of every reply that
was sent; whatever comes next is handled. -/
theorem locations_real (reached : Reaches h n) :
    (∀ i image, n.fileImages i = some image → Locates h n image) ∧ (∀ e image, (e, some (.file image)) ∈ h → Locates h n image) ∧
      ∀ e : Event, e.Fine n → ∃ reply n', e.run n = .ok (reply, n') := by
  obtain ⟨images, replies⟩ := reached.locates
  refine ⟨images, replies, ?_⟩
  intro e fine
  obtain ⟨reply, n', run, -⟩ := reached.progress fine
  exact ⟨reply, n', run⟩

/-- The one block of each of two files, in the table and in the reply to a request. -/
theorem twoFiles_located : ∃ h n i j image image', ImageAt n [102] i image ∧ ImageAt n [103] j image' ∧
    Located h n [102] 0 (image.entry 0) ∧ Located h n [103] 0 (image'.entry 0) ∧
    (∃ e, (e, some (.file image)) ∈ h) ∧ ∀ e : Event, e.Fine n → ∃ reply n', e.run n = .ok (reply, n') := by
  obtain ⟨h, n, i, j, image, image', reached, first, second, blocks, blocks', replied⟩ := pushed_reached
  obtain ⟨images, replies, progress⟩ := locations_real reached
  refine ⟨h, n, i, j, image, image', first, second, ?_, ?_, ⟨_, replied⟩, progress⟩
  · exact replies _ image replied [102] first.name 0 (by rw [blocks]; decide)
  · exact images j image' second.entry [103] second.name 0 (by rw [blocks']; decide)

end StorageStack.Dfs
