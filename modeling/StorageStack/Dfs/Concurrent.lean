import StorageStack.Dfs.Registration

/-!
# Pushes at the same time

Clients push files of different names while heartbeats arrive. The namenode handles one request at a time; the
block messages of all clients are on their way together and are handled in any order. No two blocks share a
path, so that every block is stored in the end as it was sent.
-/

namespace StorageStack.Dfs
open Lib CString

/-- A name that `file_name` has room for. -/
structure FileName where
  text : CString
  fits : text.bytes.length ≤ 255

structure Push where
  name : FileName
  file : List UInt8

/-- How far `push_file` has come. In the loop, `count` blocks are sent and `file` is what is left of the local file. -/
inductive Phase where
  | idle
  | requested (request : ClientReq)
  | replied (reply : Option Reply)
  | sending (fileInfo : FileDesc) (count : Nat) (file : List UInt8)

/-- The namenode, the datanodes, `k` clients and the block messages that are on their way. -/
structure System (k : Nat) where
  namenode : Namenode
  hosts : Hosts
  phases : Fin k → Phase
  messages : List Message

/-- The locals that are used before all of them is stored to are part of the action. -/
inductive Action (k : Nat) where
  | heartbeat (status : DatanodeStatus) (ip : IpString)
  | ask (i : Fin k) (request : ClientReq)
  | handle (i : Fin k) (fileBlock : Int → BlockDesc)
  | receive (i : Fin k)
  | send (i : Fin k)
  | deliver (place : Nat) (buffer : Bytes DFS_BLOCK_SIZE)

/-- One round of the loop of `push_file`. -/
def pushBlock (fileInfo : FileDesc) (count : Nat) (file : List UInt8) : Outcome Message := do
  let fileBlock ← fileInfo.block count
  let fileBlock := { fileBlock with content := fileBlock.content.patch 0 (file.take DFS_BLOCK_SIZE) }
  let address ← connect fileBlock
  .ok ⟨address, ⟨1, fileBlock⟩⟩

variable {k : Nat} (pushes : Fin k → Push)

/-- One action; a party that it is not the turn of does nothing. -/
def perform : Action k → System k → Outcome (System k)
  | .heartbeat status ip, s => do
    .ok { s with namenode := ← registerDatanode s.namenode status ip }
  | .ask i request, s => do
    let fileName ← strcpy request.fileName 0 (pushes i).name.text.bytes
    .ok { s with phases := Function.update s.phases i (.requested ⟨fileName, toInt32 (pushes i).file.length, 1⟩) }
  | .handle i fileBlock, s =>
    match s.phases i with
    | .requested request => do
      let (reply, namenode) ← answer s.namenode request fileBlock
      .ok { s with namenode, phases := Function.update s.phases i (.replied reply) }
    | _ => .ok s
  | .receive i, s =>
    match s.phases i with
    | .replied reply => do
      let fileInfo ← queryResult reply
      .ok { s with phases := Function.update s.phases i (.sending fileInfo 0 (pushes i).file) }
    | _ => .ok s
  | .send i, s =>
    match s.phases i with
    | .sending fileInfo count file => do
      let message ← pushBlock fileInfo count file
      .ok { s with
        messages := message :: s.messages
        phases := Function.update s.phases i (.sending fileInfo (count + 1) (file.drop DFS_BLOCK_SIZE)) }
    | _ => .ok s
  | .deliver place buffer, s =>
    match s.messages[place]? with
    | some message => do
      let hosts ← deliver buffer message s.hosts
      .ok { s with hosts, messages := s.messages.eraseIdx place }
    | none => .ok s

/-- It is the turn of the action. Only registered datanodes send heartbeats, with the address they have. -/
def Enabled : Action k → System k → Prop
  | .heartbeat status ip, s => ∃ index datanode, s.namenode.dnlist index = some datanode ∧ status.datanodeId = index.val + 1 ∧
      ip = datanode.ip ∧ ntohs status.datanodeListenPort = datanode.port
  | .ask i _, s => s.phases i = .idle
  | .handle i _, s => s.namenode.safeMode = false ∧ ∃ request, s.phases i = .requested request
  | .receive i, s => ∃ reply, s.phases i = .replied reply
  | .send i, s => ∃ fileInfo count file, s.phases i = .sending fileInfo count file ∧ count < fileInfo.blocknum
  | .deliver place _, s => place < s.messages.length

/-- An action of the namenode, a datanode or a client on a push. -/
def Action.OfPush : Action k → Prop
  | .heartbeat _ _ => False
  | _ => True

/-- Every client has left its loop and no message is on its way. -/
structure Quiet (s : System k) : Prop where
  messages : s.messages = []
  finished : ∀ i, ∃ fileInfo count file, s.phases i = .sending fileInfo count file ∧ ¬ count < fileInfo.blocknum

def free (n : Namenode) : Finset (Fin MAX_FILE_COUNT) := Finset.univ.filter fun p => (n.fileImages p).isNone

/-- Pushes of new names to a namenode with a datanode and with room. -/
structure NewPushes (h : History) (n : Namenode) : Prop where
  reached : Reaches h n
  registered : Registered n
  distinct : ∀ i j, (pushes i).name.text.bytes = (pushes j).name.text.bytes → i = j
  new : ∀ i p image, ¬ ImageAt n (pushes i).name.text.bytes p image
  small : ∀ i, (pushes i).file.length ≤ MAX_FILE_BLK_COUNT * DFS_BLOCK_SIZE
  room : k ≤ (free n).card

/-- The datanode that entry `j` of the image names has the bytes of block `j`. -/
def StoresBlock (s : System k) (push : Push) (image : FileDesc) (j : Nat) : Prop :=
  ∃ index datanode, (image.entry j).dnId = index.val + 1 ∧ s.namenode.dnlist index = some datanode ∧
    ∀ buffer, ∃ content, extReadBlock
      (s.hosts ⟨datanode.ip.text.bytes, datanode.port⟩) push.name.text.bytes j buffer = .ok content ∧
      content.toList.take (piece push.file DFS_BLOCK_SIZE j).length = piece push.file DFS_BLOCK_SIZE j

/-! ### The invariant -/

/-- The namenode has handled the write request of the push. -/
structure Pushed (n : Namenode) (push : Push) (image : FileDesc) : Prop where
  found : ∃ p, ImageAt n push.name.text.bytes p image
  blocknum : image.blocknum = blocksOf push.file
  placed : ∀ j < blocksOf push.file, ∃ fileBlock, Placed n push.name.text.bytes fileBlock j (image.entry j)

/-- The clients whose requests are not handled yet. -/
def Waiting : Phase → Prop
  | .idle => True
  | .requested _ => True
  | .replied _ => False
  | .sending _ _ _ => False

instance : DecidablePred Waiting
  | .idle => .isTrue trivial
  | .requested _ => .isTrue trivial
  | .replied _ => .isFalse id
  | .sending _ _ _ => .isFalse id

def waiting (s : System k) : Finset (Fin k) := Finset.univ.filter fun i => Waiting (s.phases i)

/-- What is known of a client in each phase. -/
def PhaseOk (push : Push) (s : System k) : Phase → Prop
  | .idle => True
  | .requested request => cstr request.fileName = .ok push.name.text.bytes ∧ request.fileSize = push.file.length ∧
      request.reqType = 1
  | .replied reply => ∃ image, reply = some (.file image) ∧ Pushed s.namenode push image
  | .sending image count file => Pushed s.namenode push image ∧ count ≤ blocksOf push.file ∧
      file = push.file.drop (DFS_BLOCK_SIZE * count) ∧
      ∀ j < count, blockMessage image push.file j ∈ s.messages ∨ HasBlock s.hosts image push.file push.name.text.bytes j

structure PushInv (n₀ : Namenode) (s : System k) : Prop where
  table : TableOk s.namenode
  dnlist : s.namenode.dnlist = n₀.dnlist
  served : s.namenode.safeMode = false
  new : ∀ i, Waiting (s.phases i) → ∀ p image, ¬ ImageAt s.namenode (pushes i).name.text.bytes p image
  room : (waiting s).card ≤ (free s.namenode).card
  phases : ∀ i, PhaseOk (pushes i) s (s.phases i)
  messages : ∀ m ∈ s.messages, ∃ i image count file j, s.phases i = .sending image count file ∧ j < count ∧
    m = blockMessage image (pushes i).file j

variable {pushes : Fin k → Push} {h : History} {n n' n₀ : Namenode} {s s' : System k} {push : Push} {image : FileDesc}
  {phase : Phase} {i : Fin k}

theorem Placed.congr {name : List UInt8} {fileBlock : Int → BlockDesc} {j : Nat} {block : BlockDesc}
    (placed : Placed n name fileBlock j block)
    (same : n'.dnlist = n.dnlist) : Placed n' name fileBlock j block := by
  obtain ⟨owner, id, content, node⟩ := placed
  rw [← same] at node
  exact ⟨owner, id, content, node⟩

theorem Pushed.congr (pushed : Pushed n push image) (same : n'.dnlist = n.dnlist)
    (kept : ∀ p, ImageAt n push.name.text.bytes p image → ImageAt n' push.name.text.bytes p image) : Pushed n' push image := by
  obtain ⟨⟨p, there⟩, blocknum, placed⟩ := pushed
  refine ⟨⟨p, kept p there⟩, blocknum, ?_⟩
  intro j below
  obtain ⟨fileBlock, block⟩ := placed j below
  exact ⟨fileBlock, block.congr same⟩

/-- What is known of a client does not depend on the other clients. -/
theorem PhaseOk.mono (ok : PhaseOk push s phase) (kept : ∀ image, Pushed s.namenode push image → Pushed s'.namenode push image)
    (blocks : ∀ image, Pushed s.namenode push image → ∀ j < blocksOf push.file,
      blockMessage image push.file j ∈ s.messages ∨ HasBlock s.hosts image push.file push.name.text.bytes j →
      blockMessage image push.file j ∈ s'.messages ∨ HasBlock s'.hosts image push.file push.name.text.bytes j) :
    PhaseOk push s' phase := by
  cases phase with
  | idle => trivial
  | requested request => exact ok
  | replied reply =>
    obtain ⟨image, same, pushed⟩ := ok
    exact ⟨image, same, kept image pushed⟩
  | sending image count file =>
    obtain ⟨pushed, below, rest, sent⟩ := ok
    refine ⟨kept image pushed, below, rest, ?_⟩
    intro j before
    exact blocks image pushed j (by omega) (sent j before)

theorem waiting_update (phases : s'.phases = Function.update s.phases i phase) (same : Waiting phase ↔ Waiting (s.phases i)) :
    waiting s' = waiting s := by
  ext j
  rw [waiting, waiting, Finset.mem_filter, Finset.mem_filter, phases]
  by_cases here : j = i
  · rw [here, Function.update_self, same]
  · rw [Function.update_of_ne here]

/-! ### One action -/

theorem PushInv.advance (inv : PushInv pushes n₀ s) (namenode : s'.namenode = s.namenode) (hosts : s'.hosts = s.hosts)
    (phases : s'.phases = Function.update s.phases i phase) (same : Waiting phase ↔ Waiting (s.phases i))
    (ok : PhaseOk (pushes i) s' phase) (sent : ∀ m ∈ s.messages, m ∈ s'.messages)
    (messages : ∀ m ∈ s'.messages, ∃ i image count file j, s'.phases i = .sending image count file ∧ j < count ∧
      m = blockMessage image (pushes i).file j) : PushInv pushes n₀ s' := by
  have others : ∀ j, j ≠ i → s'.phases j = s.phases j := by
    intro j apart
    rw [phases, Function.update_of_ne apart]
  have here : s'.phases i = phase := by
    rw [phases, Function.update_self]
  constructor
  case table => rw [namenode]; exact inv.table
  case dnlist => rw [namenode]; exact inv.dnlist
  case served => rw [namenode]; exact inv.served
  case new =>
    intro j waits
    rw [namenode]
    by_cases self : j = i
    · subst self
      rw [here, same] at waits
      exact inv.new j waits
    · rw [others j self] at waits
      exact inv.new j waits
  case room =>
    rw [waiting_update phases same, namenode]
    exact inv.room
  case phases =>
    intro j
    by_cases self : j = i
    · subst self
      rw [here]
      exact ok
    · rw [others j self]
      refine (inv.phases j).mono ?_ ?_
      · intro image pushed
        rw [namenode]
        exact pushed
      · intro image _ b _ either
        rw [hosts]
        exact either.imp_left (sent _)
  case messages => exact messages

theorem PushInv.ask (inv : PushInv pushes n₀ s) (small : (pushes i).file.length ≤ 102400) (turn : s.phases i = .idle)
    (request : ClientReq) :
    ∃ s', perform pushes (.ask i request) s = .ok s' ∧ PushInv pushes n₀ s' := by
  have fits := (pushes i).name.fits
  have fileName := strcpy_ok request.fileName (s := (pushes i).name.text.bytes) (by omega)
  refine ⟨_, by rw [perform, fileName, ok_bind], ?_⟩
  refine inv.advance rfl rfl rfl ?_ ?_ (fun m => id) ?_
  · rw [turn]
    exact Iff.rfl
  · exact ⟨cstr_strcpy _ (pushes i).name.text.nonzero (by omega), toInt32_of_range (by omega) (by omega), rfl⟩
  · intro m member
    obtain ⟨c, image, count, file, j, sending, before, same⟩ := inv.messages m member
    refine ⟨c, image, count, file, j, ?_, before, same⟩
    have apart : c ≠ i := by
      rintro rfl
      rw [turn] at sending
      cases sending
    exact (Function.update_of_ne apart ..).trans sending

theorem PushInv.receive (inv : PushInv pushes n₀ s) {reply : Option Reply} (turn : s.phases i = .replied reply) :
    ∃ s', perform pushes (.receive i) s = .ok s' ∧ PushInv pushes n₀ s' := by
  have ok := inv.phases i
  rw [turn] at ok
  obtain ⟨image, rfl, pushed⟩ := ok
  refine ⟨_, by rw [perform, turn]; rfl, ?_⟩
  refine inv.advance (i := i) rfl rfl rfl ?_ ?_ (fun m => id) ?_
  · rw [turn]
    exact Iff.rfl
  · refine ⟨pushed, Nat.zero_le _, rfl, ?_⟩
    intro j before
    exact absurd before (Nat.not_lt_zero j)
  · intro m member
    obtain ⟨c, image, count, file, j, sending, before, same⟩ := inv.messages m member
    refine ⟨c, image, count, file, j, ?_, before, same⟩
    have apart : c ≠ i := by
      rintro rfl
      rw [turn] at sending
      cases sending
    exact (Function.update_of_ne apart ..).trans sending

theorem pushBlock_ok {file : List UInt8} {j : Nat} (small : j < 100) {name : List UInt8} {fileBlock : Int → BlockDesc}
    (placed : Placed n name fileBlock j (image.entry j)) :
    pushBlock image j (file.drop (1024 * j)) = .ok (blockMessage image file j) := by
  rw [pushBlock, block_ok image (show j < 100 from small), ok_bind]
  dsimp only
  rw [placed.connect, ok_bind]
  rfl

theorem PushInv.send (inv : PushInv pushes n₀ s) (small : (pushes i).file.length ≤ 102400) {count : Nat} {file : List UInt8}
    (turn : s.phases i = .sending image count file) (more : count < image.blocknum) :
    ∃ s', perform pushes (.send i) s = .ok s' ∧ PushInv pushes n₀ s' := by
  have ok := inv.phases i
  rw [turn] at ok
  obtain ⟨pushed, below, rfl, sent⟩ := ok
  have blocknum := pushed.blocknum
  have few : blocksOf (pushes i).file ≤ 100 := (blockCount_eq small).2
  obtain ⟨fileBlock, placed⟩ := pushed.placed count (by omega)
  refine ⟨_, by rw [perform, turn]; dsimp only; rw [pushBlock_ok (by omega) placed, ok_bind], ?_⟩
  refine inv.advance (i := i) rfl rfl rfl ?_ ?_ (fun m member => List.mem_cons_of_mem _ member) ?_
  · rw [turn]
    exact Iff.rfl
  · refine ⟨pushed, by omega, ?_, ?_⟩
    · rw [List.drop_drop]
      rfl
    · intro j before
      by_cases last : j = count
      · exact .inl (last ▸ List.mem_cons_self ..)
      · exact (sent j (by omega)).imp_left (List.mem_cons_of_mem _)
  · intro m member
    rcases List.mem_cons.mp member with rfl | member
    · exact ⟨i, image, count + 1, _, count, Function.update_self .., Nat.lt_succ_self _, rfl⟩
    · obtain ⟨c, image', count', file', j, sending, before, same⟩ := inv.messages m member
      by_cases self : c = i
      · subst self
        rw [turn] at sending
        obtain ⟨rfl, rfl, rfl⟩ := Phase.sending.inj sending
        exact ⟨c, image, count + 1, _, j, Function.update_self .., by omega, same⟩
      · exact ⟨c, image', count', file', j, (Function.update_of_ne self ..).trans sending, before, same⟩

theorem PushInv.heartbeat (inv : PushInv pushes n₀ s)
    (ids : ∀ i datanode, n₀.dnlist i = some datanode → datanode.dnId = i.val + 1)
    {status : DatanodeStatus} {ip : IpString} (turn : Enabled (.heartbeat status ip) s) :
    ∃ s', perform pushes (.heartbeat status ip) s = .ok s' ∧ PushInv pushes n₀ s' := by
  obtain ⟨index, datanode, entry, id, rfl, port⟩ := turn
  have low : 1 ≤ status.datanodeId := by omega
  obtain ⟨n', run, dnlist, images, safeMode⟩ : ∃ n', registerDatanode s.namenode status datanode.ip = .ok n' ∧
      n'.dnlist = s.namenode.dnlist ∧ n'.fileImages = s.namenode.fileImages ∧ n'.safeMode = false := by
    rcases registerDatanode_ok s.namenode datanode.ip low with ⟨-, run⟩ | ⟨index', id', -, run⟩
    · exact ⟨_, run, rfl, rfl, inv.served⟩
    · refine ⟨_, run, ?_, rfl, rfl⟩
      have same : index' = index := Fin.ext (by omega)
      have number := ids index datanode (inv.dnlist ▸ entry)
      have kept : (⟨status.datanodeId, datanode.ip, ntohs status.datanodeListenPort⟩ : Datanode) = datanode := by
        rw [port, id, ← number]
      rw [Namenode.register, same, kept, ← entry, Function.update_eq_self]
  have at_iff : ∀ name p image, ImageAt n' name p image ↔ ImageAt s.namenode name p image := by
    intro name p image
    constructor
    · intro there
      exact ⟨images ▸ there.entry, there.name⟩
    · intro there
      exact ⟨images.symm ▸ there.entry, there.name⟩
  refine ⟨_, by rw [perform, run, ok_bind], ?_⟩
  constructor
  case table => exact inv.table.congr images
  case dnlist => exact dnlist.trans inv.dnlist
  case served => exact safeMode
  case new =>
    intro i waits p image there
    exact inv.new i waits p image ((at_iff _ p image).mp there)
  case room =>
    show (waiting s).card ≤ _
    rw [free, images]
    exact inv.room
  case phases =>
    intro i
    refine (inv.phases i).mono ?_ (fun image _ j _ kept => kept)
    intro image pushed
    apply pushed.congr dnlist
    intro p there
    exact (at_iff _ p image).mpr there
  case messages => exact inv.messages

theorem PushInv.place (inv : PushInv pushes n₀ s)
    (distinct : ∀ i j, (pushes i).name.text.bytes = (pushes j).name.text.bytes → i = j)
    {request : ClientReq} (turn : s.phases i = .requested request) {p : Fin MAX_FILE_COUNT} {fresh : FileDesc}
    (place : Place s.namenode request (pushes i).name.text.bytes p fresh) (empty : s.namenode.fileImages p = none)
    (zero : fresh.blocknum = 0)
    (extended : Extended s.namenode (pushes i).name.text.bytes fresh image)
    (blocknum : image.blocknum = blocksOf (pushes i).file) :
    PushInv pushes n₀ { s with
      namenode := { s.namenode with fileImages := Function.update s.namenode.fileImages p (some image) }
      phases := Function.update s.phases i (.replied (some (.file image))) } := by
  have others : ∀ j, j ≠ i → Function.update s.phases i (.replied (some (.file image))) j = s.phases j := by
    intro j apart
    exact Function.update_of_ne apart ..
  have kept : ∀ {name q other}, ImageAt s.namenode name q other →
      ImageAt { s.namenode with fileImages := Function.update s.namenode.fileImages p (some image) } name q other := by
    intro name q other there
    apply imageAt_update.mpr
    rw [if_neg ?_]
    · exact there
    · rintro rfl
      have both := there.entry
      rw [empty] at both
      cases both
  constructor
  case table => exact inv.table.stored place extended
  case dnlist => exact inv.dnlist
  case served => exact inv.served
  case new =>
    intro j waits q other there
    have apart : j ≠ i := by
      rintro rfl
      dsimp only at waits
      rw [Function.update_self] at waits
      exact waits
    dsimp only at waits
    rw [others j apart] at waits
    rw [imageAt_update] at there
    split at there
    case isTrue => exact apart (distinct j i (Except.ok.inj (there.2.symm.trans extended.filename)))
    case isFalse => exact inv.new j waits q other there
  case room =>
    have waits : waiting { s with
        namenode := { s.namenode with fileImages := Function.update s.namenode.fileImages p (some image) }
        phases := Function.update s.phases i (.replied (some (.file image))) } = (waiting s).erase i := by
      ext j
      rw [waiting, waiting, Finset.mem_filter, Finset.mem_erase, Finset.mem_filter]
      dsimp only
      by_cases self : j = i
      · rw [self, Function.update_self]
        exact iff_of_false (fun both => both.2) fun both => both.1 rfl
      · rw [others j self]
        exact (and_iff_right self).symm
    have places : free { s.namenode with fileImages := Function.update s.namenode.fileImages p (some image) } =
      (free s.namenode).erase p := by
      ext q
      rw [free, free, Finset.mem_filter, Finset.mem_erase, Finset.mem_filter]
      dsimp only
      by_cases self : q = p
      · rw [self, Function.update_self]
        exact iff_of_false (fun both => Bool.false_ne_true both.2) fun both => both.1 rfl
      · rw [Function.update_of_ne self]
        exact (and_iff_right self).symm
    rw [waits, places, Finset.card_erase_of_mem, Finset.card_erase_of_mem]
    · exact Nat.sub_le_sub_right inv.room 1
    · rw [free, Finset.mem_filter, empty]
      exact ⟨Finset.mem_univ p, rfl⟩
    · rw [waiting, Finset.mem_filter, turn]
      exact ⟨Finset.mem_univ i, trivial⟩
  case phases =>
    intro j
    by_cases self : j = i
    · subst self
      dsimp only
      rw [Function.update_self]
      refine ⟨image, rfl, ⟨p, imageAt_update.mpr ?_⟩, blocknum, ?_⟩
      · rw [if_pos rfl]
        exact ⟨rfl, extended.filename⟩
      · intro b below
        rcases extended.blocks b with ⟨-, outside⟩ | ⟨fileBlock, placed⟩
        · omega
        · exact ⟨fileBlock, placed.congr rfl⟩
    · dsimp only
      rw [others j self]
      refine (inv.phases j).mono ?_ (fun image _ b _ => id)
      intro other pushed
      exact pushed.congr rfl fun q => kept
  case messages =>
    intro m member
    obtain ⟨c, image', count, file, j, sending, before, same⟩ := inv.messages m member
    refine ⟨c, image', count, file, j, ?_, before, same⟩
    have apart : c ≠ i := by
      rintro rfl
      rw [turn] at sending
      cases sending
    exact (others c apart).trans sending

theorem PushInv.handle (inv : PushInv pushes n₀ s) (registered : Registered n₀)
    (distinct : ∀ i j, (pushes i).name.text.bytes = (pushes j).name.text.bytes → i = j)
    (small : (pushes i).file.length ≤ 102400) {request : ClientReq} (turn : s.phases i = .requested request)
    (fileBlock : Int → BlockDesc) :
    ∃ s', perform pushes (.handle i fileBlock) s = .ok s' ∧ PushInv pushes n₀ s' := by
  have ok := inv.phases i
  rw [turn] at ok
  obtain ⟨string, size, kind⟩ := ok
  have absent := inv.new i (turn ▸ trivial)
  have waits : i ∈ waiting s := by
    rw [waiting, Finset.mem_filter, turn]
    exact ⟨Finset.mem_univ i, trivial⟩
  have blocks : blocksFor request.fileSize = blocksOf (pushes i).file := by
    rw [size]
    show ((pushes i).file.length + (1024 - 1) : Int) / 1024 = ((((pushes i).file.length + 1023) / 1024 : Nat) : Int)
    omega
  have few : blocksOf (pushes i).file ≤ 100 := (blockCount_eq small).2
  have fine : FineRequest s.namenode request (pushes i).name.text.bytes := by
    constructor
    case size => omega
    case string => exact string
    case old =>
      intro p image there
      exact absurd there (absent p image)
    case new =>
      intro _ _ _
      show blocksFor request.fileSize ≤ 100
      omega
  have registered' : Registered s.namenode := by
    rw [Registered, inv.dnlist]
    exact registered
  obtain ⟨reply, n', run, handled⟩ := @answer_ok s.namenode request _ fileBlock inv.table registered' fine
  refine ⟨_, by rw [perform, turn]; dsimp only; rw [run, ok_bind], ?_⟩
  cases handled with
  | status other => omega
  | ignored _ other => exact absurd kind other
  | absent other _ => omega
  | found p image other _ => omega
  | full _ _ taken =>
    have none : (free s.namenode).card = 0 := by
      rw [Finset.card_eq_zero, free, Finset.filter_eq_empty_iff]
      intro p _
      rw [Option.isNone_iff_eq_none]
      exact Option.isSome_iff_ne_none.mp (taken p)
    have some : 0 < (waiting s).card := Finset.card_pos.mpr ⟨i, waits⟩
    have room := inv.room
    omega
  | stored p fresh image _ place extended blocknum =>
    cases place with
    | old there => exact absurd there (absent p fresh)
    | new write unknown empty before zero zeros =>
      exact inv.place distinct turn (.new write unknown empty before zero zeros) empty zero extended
        ((blocknum kind).trans blocks)

theorem Pushed.unique {image' : FileDesc} (table : TableOk n) (pushed : Pushed n push image)
    (pushed' : Pushed n push image') : image' = image := by
  obtain ⟨p, there⟩ := pushed.found
  obtain ⟨q, there'⟩ := pushed'.found
  obtain rfl := table.distinct p q image image' _ there there'
  exact Option.some.inj (there'.entry.symm.trans there.entry)

theorem blockMessage_inj {image' : FileDesc} {file file' : List UInt8} {name name' : List UInt8}
    {fileBlock fileBlock' : Int → BlockDesc}
    {j j' : Nat} (placed : Placed n name fileBlock j (image.entry j)) (placed' : Placed n name' fileBlock' j' (image'.entry j'))
    (same : blockMessage image' file' j' = blockMessage image file j) : name' = name ∧ j' = j := by
  have owner : (image'.entry j').ownerName = (image.entry j).ownerName := congrArg (fun m => m.request.block.ownerName) same
  have id : (image'.entry j').blockId = (image.entry j).blockId := congrArg (fun m => m.request.block.blockId) same
  have names := placed'.owner
  rw [owner, placed.owner] at names
  rw [placed'.id, placed.id] at id
  exact ⟨(Except.ok.inj names).symm, Int.ofNat_inj.mp id⟩

theorem PushInv.deliver (inv : PushInv pushes n₀ s)
    (distinct : ∀ i j, (pushes i).name.text.bytes = (pushes j).name.text.bytes → i = j)
    (small : ∀ i, (pushes i).file.length ≤ 102400) {place : Nat} (turn : place < s.messages.length)
    (buffer : Bytes DFS_BLOCK_SIZE) :
    ∃ s', perform pushes (.deliver place buffer) s = .ok s' ∧ PushInv pushes n₀ s' := by
  have here : s.messages[place]? = some s.messages[place] := List.getElem?_eq_getElem turn
  obtain ⟨c, image, count, file, j, sending, before, message⟩ := inv.messages _ (List.getElem_mem turn)
  have ok := inv.phases c
  rw [sending] at ok
  obtain ⟨pushed, below, -, -⟩ := ok
  have few : blocksOf (pushes c).file ≤ 100 := (blockCount_eq (small c)).2
  obtain ⟨fileBlock, placed⟩ := pushed.placed j (by omega)
  obtain ⟨hosts, run, directories, files⟩ :=
    @deliver_ok s.namenode _ fileBlock image (pushes c).file j (by omega) placed buffer s.hosts
  have paths : ∀ a name b, blockPath (hosts a) name b = blockPath (s.hosts a) name b := by
    intro a name b
    rw [blockPath, directories, blockPath]
  refine ⟨_, by rw [perform, here]; dsimp only; rw [message, run, ok_bind], ?_⟩
  constructor
  case table => exact inv.table
  case dnlist => exact inv.dnlist
  case served => exact inv.served
  case new => exact inv.new
  case room => exact inv.room
  case phases =>
    intro i
    refine (inv.phases i).mono (fun _ => id) ?_
    intro image' pushed' b under either
    obtain ⟨fileBlock', placed'⟩ := pushed'.placed b under
    by_cases same : (pushes i).name.text.bytes = (pushes c).name.text.bytes ∧ b = j
    · -- The block that was handled.
      obtain ⟨name, rfl⟩ := same
      obtain rfl := distinct i c name
      obtain rfl := pushed.unique inv.table pushed'
      right
      rw [HasBlock, files, paths, if_pos ⟨rfl, rfl⟩]
    · rcases either with waits | stored
      · left
        obtain ⟨q, other⟩ := List.mem_iff_getElem?.mp waits
        refine List.mem_eraseIdx_iff_getElem?.mpr ⟨q, ?_, other⟩
        rintro rfl
        have both := Option.some.inj (here.symm.trans other)
        exact same (blockMessage_inj placed placed' (both.symm.trans message))
      · right
        rw [HasBlock, files, paths, if_neg ?_]
        · exact stored
        · intro clash
          exact same (blockPath_inj clash.2)
  case messages =>
    intro m member
    exact inv.messages m (List.mem_of_mem_eraseIdx member)

/-! ### Runs -/

theorem NewPushes.inv (ready : NewPushes pushes h n) (hosts : Hosts) : PushInv pushes n ⟨n, hosts, fun _ => .idle, []⟩ := by
  obtain ⟨table, registration⟩ := ready.reached.holds
  constructor
  case table => exact table
  case dnlist => rfl
  case served => exact registration.safeMode.mpr ready.registered
  case new =>
    intro i _
    exact ready.new i
  case room =>
    have all : waiting (⟨n, hosts, fun _ => .idle, []⟩ : System k) = Finset.univ :=
      Finset.filter_true_of_mem fun i _ => trivial
    rw [all, Finset.card_univ, Fintype.card_fin]
    exact ready.room
  case phases =>
    intro i
    trivial
  case messages =>
    intro m member
    cases member

theorem NewPushes.keeps (ready : NewPushes pushes h n) (a : Action k) (s : System k) (inv : PushInv pushes n s)
    (turn : Enabled a s) :
    ∃ s', perform pushes a s = .ok s' ∧ PushInv pushes n s' := by
  have small : ∀ i, (pushes i).file.length ≤ 102400 := ready.small
  cases a with
  | heartbeat status ip =>
    refine inv.heartbeat ?_ turn
    intro i datanode entry
    have entries := ready.reached.holds.2.entries i
    rw [entry] at entries
    obtain ⟨_, _, same⟩ := Option.map_eq_some_iff.mp entries.symm
    rw [← same]
  | ask i request => exact inv.ask (small i) turn request
  | handle i fileBlock =>
    obtain ⟨-, request, requested⟩ := turn
    exact inv.handle ready.registered ready.distinct (small i) requested fileBlock
  | receive i =>
    obtain ⟨reply, replied⟩ := turn
    exact inv.receive replied
  | send i =>
    obtain ⟨image, count, file, sending, more⟩ := turn
    exact inv.send (small i) sending more
  | deliver place buffer => exact inv.deliver ready.distinct small turn buffer

theorem HasBlock.stores {j : Nat} (small : j < 100) {fileBlock : Int → BlockDesc}
    (placed : Placed s.namenode push.name.text.bytes fileBlock j (image.entry j))
    (has : HasBlock s.hosts image push.file push.name.text.bytes j) : StoresBlock s push image j := by
  obtain ⟨index, datanode, entry, dnId, locIp, locPort⟩ := placed.node
  have address : addressOf (image.entry j) = ⟨datanode.ip.text.bytes, datanode.port⟩ := by
    rw [addressOf, cstr_eq locIp, locPort]
  refine ⟨index, datanode, dnId, entry, ?_⟩
  intro buffer
  rw [← address]
  have path := getBlockFilePath_ok (s.hosts (addressOf (image.entry j))) push.name.text.bytes small
  have whole : (sentContent image push.file j).toList.take DFS_BLOCK_SIZE = (sentContent image push.file j).toList :=
    List.take_of_length_le (by rw [Bytes.length_toList])
  refine ⟨sentContent image push.file j, ?_, ?_⟩
  · rw [extReadBlock, path, ok_bind, has]
    dsimp only
    rw [whole, Bytes.patch_toList]
  · have fits : 0 + (piece push.file DFS_BLOCK_SIZE j).length ≤ 1024 := by
      have few : (piece push.file DFS_BLOCK_SIZE j).length ≤ 1024 := List.length_take_le ..
      omega
    have front := Bytes.toList_drop_patch (image.entry j).content fits
    rw [List.drop_zero] at front
    rw [sentContent, front, List.take_left']
    rfl

/-- Some party can always go on until everything is handled. -/
theorem PushInv.quiet_or_enabled (inv : PushInv pushes n₀ s) :
    Quiet s ∨ ∃ a : Action k, a.OfPush ∧ Enabled a s := by
  by_cases messages : s.messages = []
  · by_cases finished : ∀ i, ∃ fileInfo count file, s.phases i = .sending fileInfo count file ∧ ¬ count < fileInfo.blocknum
    · exact .inl ⟨messages, finished⟩
    · right
      obtain ⟨i, busy⟩ := not_forall.mp finished
      cases phase : s.phases i with
      | idle => exact ⟨.ask i ⟨.zero, 0, 0⟩, trivial, phase⟩
      | requested request => exact ⟨.handle i fun _ => .zero, trivial, inv.served, request, phase⟩
      | replied reply => exact ⟨.receive i, trivial, reply, phase⟩
      | sending fileInfo count file =>
        refine ⟨.send i, trivial, fileInfo, count, file, phase, ?_⟩
        by_contra stop
        exact busy ⟨fileInfo, count, file, phase, stop⟩
  · right
    exact ⟨.deliver 0 .zero, trivial, List.length_pos_iff.mpr messages⟩

/-- How many actions are left for a push. Each block takes one to send it and one to handle it. -/
def Phase.left (push : Push) : Phase → Nat
  | .idle => 2 * blocksOf push.file + 3
  | .requested _ => 2 * blocksOf push.file + 2
  | .replied _ => 2 * blocksOf push.file + 1
  | .sending _ count _ => 2 * (blocksOf push.file - count)

def System.left (pushes : Fin k → Push) (s : System k) : Nat := s.messages.length + ∑ i, (s.phases i).left (pushes i)

theorem left_lt {namenode : Namenode} {hosts : Hosts} {messages : List Message}
    (less : messages.length + phase.left (pushes i) < s.messages.length + (s.phases i).left (pushes i)) :
    System.left pushes ⟨namenode, hosts, Function.update s.phases i phase, messages⟩ < s.left pushes := by
  have moved := sum_update (fun i phase => Phase.left (pushes i) phase) s.phases i phase
  unfold System.left
  dsimp only
  omega

/-- Every action on a push brings its end nearer. -/
theorem PushInv.spends (inv : PushInv pushes n₀ s) {a : Action k} (ofPush : a.OfPush) (turn : Enabled a s)
    (run : perform pushes a s = .ok s') : s'.left pushes < s.left pushes := by
  cases a with
  | heartbeat status ip => exact ofPush.elim
  | ask i request =>
    obtain ⟨fileName, -, same⟩ := bind_ok run
    obtain rfl := Except.ok.inj same
    refine left_lt ?_
    rw [turn, Phase.left, Phase.left]
    omega
  | handle i fileBlock =>
    obtain ⟨-, request, requested⟩ := turn
    rw [perform, requested] at run
    obtain ⟨⟨reply, n'⟩, -, same⟩ := bind_ok run
    obtain rfl := Except.ok.inj same
    refine left_lt ?_
    rw [requested, Phase.left, Phase.left]
    omega
  | receive i =>
    obtain ⟨reply, replied⟩ := turn
    rw [perform, replied] at run
    obtain ⟨image, -, same⟩ := bind_ok run
    obtain rfl := Except.ok.inj same
    refine left_lt ?_
    rw [replied, Phase.left, Phase.left]
    omega
  | send i =>
    obtain ⟨image, count, file, sending, more⟩ := turn
    have ok := inv.phases i
    rw [sending] at ok
    have blocknum := ok.1.blocknum
    rw [perform, sending] at run
    obtain ⟨message, -, same⟩ := bind_ok run
    obtain rfl := Except.ok.inj same
    refine left_lt ?_
    rw [sending, Phase.left, Phase.left, List.length_cons]
    omega
  | deliver place buffer =>
    have here : s.messages[place]? = some s.messages[place] := List.getElem?_eq_getElem turn
    have fewer := List.length_eraseIdx_add_one turn
    rw [perform, here] at run
    obtain ⟨hosts, -, same⟩ := bind_ok run
    obtain rfl := Except.ok.inj same
    unfold System.left
    dsimp only
    omega

theorem PushInv.exists_quiet (ready : NewPushes pushes h n) (inv : PushInv pushes n s) :
    ∃ actions s', Meets (perform pushes) Enabled actions s ∧ runAll (perform pushes) actions s = .ok s' ∧ Quiet s' := by
  refine exists_run (System.left pushes) (fun s inv => ?_) inv
  rcases inv.quiet_or_enabled with quiet | ⟨a, ofPush, turn⟩
  · exact .inl quiet
  · obtain ⟨s', run, inv'⟩ := ready.keeps a s inv turn
    exact .inr ⟨a, s', turn, run, inv', inv.spends ofPush turn run⟩

/-- Pushes of different names at the same time: however the actions of clients, namenode and datanodes and the
heartbeats follow each other, every action is handled, and once all messages are handled every block of every
file is stored where the namenode says. -/
theorem pushes_stored (ready : NewPushes pushes h n) (hosts : Hosts) (actions : List (Action k))
    (meets : Meets (perform pushes) Enabled actions ⟨n, hosts, fun _ => .idle, []⟩) :
    ∃ s, runAll (perform pushes) actions ⟨n, hosts, fun _ => .idle, []⟩ = .ok s ∧
      (Quiet s ∨ ∃ a : Action k, a.OfPush ∧ Enabled a s) ∧
      (Quiet s → ∀ i, ∃ p image, ImageAt s.namenode (pushes i).name.text.bytes p image ∧
        image.blocknum = blocksOf (pushes i).file ∧
        ∀ j : Nat, (j : Int) < image.blocknum → StoresBlock s (pushes i) image j) := by
  obtain ⟨s, run, inv⟩ := runAll_keeps (PushInv pushes n) ready.keeps (ready.inv hosts) meets
  refine ⟨s, run, inv.quiet_or_enabled, ?_⟩
  intro quiet i
  obtain ⟨image, count, file, sending, finished⟩ := quiet.finished i
  have ok := inv.phases i
  rw [sending] at ok
  obtain ⟨pushed, below, -, sent⟩ := ok
  obtain ⟨p, there⟩ := pushed.found
  have blocknum := pushed.blocknum
  have few : blocksOf (pushes i).file ≤ 100 := (blockCount_eq (ready.small i)).2
  refine ⟨p, image, there, blocknum, ?_⟩
  intro j under
  obtain ⟨fileBlock, placed⟩ := pushed.placed j (by omega)
  rcases sent j (by omega) with waits | stored
  · rw [quiet.messages] at waits
    cases waits
  · exact stored.stores (by omega) placed

def twoPushes : Fin 2 → Push
  | 0 => ⟨⟨⟨[102], by simp⟩, by decide⟩, [1]⟩
  | 1 => ⟨⟨⟨[103], by simp⟩, by decide⟩, [2]⟩

theorem twoPushes_new : NewPushes twoPushes oneHeartbeat oneRegistered where
  reached := oneRegistered_reached
  registered := ⟨0, rfl⟩
  distinct := by decide
  new := by
    intro i p image there
    cases there.entry
  small := by decide
  room := by
    have all : free oneRegistered = Finset.univ := Finset.filter_true_of_mem fun p _ => rfl
    rw [all, Finset.card_univ, Fintype.card_fin]
    decide

theorem twoPushes_blocks (i : Fin 2) : blocksOf (twoPushes i).file = 1 := by
  revert i
  decide

/-- The run has an end, and there both files are stored. -/
theorem twoPushes_stored : ∃ actions s, runAll (perform twoPushes) actions ⟨oneRegistered, emptyHosts, fun _ => .idle, []⟩ = .ok s ∧
    Quiet s ∧ ∀ i, ∃ p image, ImageAt s.namenode (twoPushes i).name.text.bytes p image ∧ image.blocknum = 1 ∧
      StoresBlock s (twoPushes i) image 0 := by
  obtain ⟨actions, s, meets, run, quiet⟩ := PushInv.exists_quiet twoPushes_new (twoPushes_new.inv emptyHosts)
  obtain ⟨s', run', -, stored⟩ := pushes_stored twoPushes_new emptyHosts actions meets
  obtain rfl := Except.ok.inj (run.symm.trans run')
  refine ⟨actions, s, run, quiet, fun i => ?_⟩
  obtain ⟨p, image, there, blocknum, blocks⟩ := stored quiet i
  rw [twoPushes_blocks] at blocknum
  exact ⟨p, image, there, blocknum, blocks 0 (by rw [blocknum]; decide)⟩

end StorageStack.Dfs
