import StorageStack.Dfs.Concurrent
import StorageStack.Dfs.RoundTrip
import StorageStack.Dfs.UpdatePoint

/-!
# Pulls while other files are pushed

A reader starts when the push of its file has finished. From then on neither the blocks of the file nor the entry
of the namenode change, so that it gets the bytes that were pushed, however its actions and those of the clients,
the datanodes and the other readers follow each other.
-/

namespace StorageStack.Dfs
open Lib CString

/-- How far `pull_file` has come. In the loop, `contents` is what `block_list` has so far. -/
inductive Pull where
  | idle
  | requested (request : ClientReq)
  | replied (reply : Option Reply)
  | reading (fileInfo : FileDesc) (contents : List (Bytes DFS_BLOCK_SIZE))
  | asked (fileInfo : FileDesc) (contents : List (Bytes DFS_BLOCK_SIZE)) (fileBlock : BlockDesc) (address : Address)
  | served (fileInfo : FileDesc) (contents : List (Bytes DFS_BLOCK_SIZE)) (fileBlock : BlockDesc) (reply : Option BlockDesc)

/-- The clients that push, and `m` readers. -/
structure Traffic (k m : Nat) where
  system : System k
  pulls : Fin m → Pull

/-- An action on a push, or a step of a reader, of the namenode or of a datanode on a pull. -/
inductive Act (k m : Nat) where
  | push (a : Action k)
  | ask (r : Fin m) (request : ClientReq)
  | locate (r : Fin m) (fileBlock : Int → BlockDesc)
  | receive (r : Fin m)
  | request (r : Fin m)
  | serve (r : Fin m) (buffer : Bytes DFS_BLOCK_SIZE)
  | store (r : Fin m)

variable {k m : Nat}

def Traffic.setPull (t : Traffic k m) (r : Fin m) (pull : Pull) : Traffic k m :=
  { t with pulls := Function.update t.pulls r pull }

variable (pushes : Fin k → Push) (target : Fin m → Fin k)

/-- One action; a party that it is not the turn of does nothing. -/
def act : Act k m → Traffic k m → Outcome (Traffic k m)
  | .push a, t => do .ok { t with system := ← perform pushes a t.system }
  | .ask r request, t => do
    let fileName ← strcpy request.fileName 0 (pushes (target r)).name.text.bytes
    .ok (t.setPull r (.requested ⟨fileName, request.fileSize, 0⟩))
  | .locate r fileBlock, t =>
    match t.pulls r with
    | .requested request => do
      let (reply, namenode) ← answer t.system.namenode request fileBlock
      .ok ({ t with system := { t.system with namenode } }.setPull r (.replied reply))
    | _ => .ok t
  | .receive r, t =>
    match t.pulls r with
    | .replied reply => do .ok (t.setPull r (.reading (← queryResult reply) []))
    | _ => .ok t
  | .request r, t =>
    match t.pulls r with
    | .reading fileInfo contents => do
      let fileBlock ← fileInfo.block contents.length
      let address ← connect fileBlock
      .ok (t.setPull r (.asked fileInfo contents fileBlock address))
    | _ => .ok t
  | .serve r buffer, t =>
    match t.pulls r with
    | .asked fileInfo contents fileBlock address => do
      let (reply, host) ← serve (t.system.hosts address) ⟨0, fileBlock⟩ buffer
      let hosts := Function.update t.system.hosts address host
      .ok ({ t with system := { t.system with hosts } }.setPull r (.served fileInfo contents fileBlock reply))
    | _ => .ok t
  | .store r, t =>
    match t.pulls r with
    | .served fileInfo contents fileBlock reply => do
      let returnedBlock ← receive reply
      let content ← strcpy fileBlock.content 0 (← cstr returnedBlock.content)
      .ok (t.setPull r (.reading fileInfo (contents ++ [content])))
    | _ => .ok t

/-- The client has left its loop and no message with its name is on its way. -/
structure Finished (s : System k) (i : Fin k) (image : FileDesc) : Prop where
  phase : ∃ count file, s.phases i = .sending image count file ∧ ¬ count < image.blocknum
  handled : ∀ message ∈ s.messages, cstr message.request.block.ownerName ≠ .ok (pushes i).name.text.bytes

/-- It is the turn of the action. A reader waits until its file is there. -/
def Act.Enabled : Act k m → Traffic k m → Prop
  | .push a, t => Dfs.Enabled a t.system
  | .ask r _, t => t.pulls r = .idle ∧ ∃ image, Finished pushes t.system (target r) image
  | .locate r _, t => t.system.namenode.safeMode = false ∧ ∃ request, t.pulls r = .requested request
  | .receive r, t => ∃ reply, t.pulls r = .replied reply
  | .request r, t => ∃ fileInfo contents, t.pulls r = .reading fileInfo contents ∧ contents.length < fileInfo.blocknum
  | .serve r _, t => ∃ fileInfo contents fileBlock address, t.pulls r = .asked fileInfo contents fileBlock address
  | .store r, t => ∃ fileInfo contents fileBlock reply, t.pulls r = .served fileInfo contents fileBlock reply

/-- An action on a push or a pull. -/
def Act.OfTransfer : Act k m → Prop
  | .push a => a.OfPush
  | _ => True

/-- The reader has all blocks and writes this file. -/
def Pull.Wrote (pull : Pull) (file : List UInt8) : Prop :=
  ∃ fileInfo contents, pull = .reading fileInfo contents ∧ ¬ contents.length < fileInfo.blocknum ∧
    contents.flatMap Bytes.toList = file

/-! ### The invariant -/

/-- What is known of a reader in each phase. -/
def PullOk (s : System k) (i : Fin k) : Pull → Prop
  | .idle => True
  | .requested request => (∃ image, Finished pushes s i image) ∧ cstr request.fileName = .ok (pushes i).name.text.bytes ∧
      request.reqType = 0
  | .replied reply => ∃ image, reply = some (.file image) ∧ Finished pushes s i image
  | .reading image contents => Finished pushes s i image ∧ contents.length ≤ blocksOf (pushes i).file ∧
      contents = (List.range contents.length).map (pulled image (pushes i).file)
  | .asked image contents fileBlock address => Finished pushes s i image ∧ contents.length < blocksOf (pushes i).file ∧
      contents = (List.range contents.length).map (pulled image (pushes i).file) ∧
      fileBlock = image.entry contents.length ∧ address = addressOf fileBlock
  | .served image contents fileBlock reply => Finished pushes s i image ∧ contents.length < blocksOf (pushes i).file ∧
      contents = (List.range contents.length).map (pulled image (pushes i).file) ∧
      fileBlock = image.entry contents.length ∧ ∃ returned, reply = some returned ∧
        cstr returned.content = .ok (scan (sentContent image (pushes i).file contents.length).toList)

structure PullInv (n₀ : Namenode) (t : Traffic k m) : Prop where
  system : PushInv pushes n₀ t.system
  pulls : ∀ r, PullOk pushes t.system (target r) (t.pulls r)

variable {pushes : Fin k → Push} {target : Fin m → Fin k} {h : History} {n n₀ : Namenode} {s s' : System k} {t : Traffic k m}
  {i : Fin k} {r : Fin m} {image : FileDesc} {pull : Pull}

/-! ### A finished push -/

theorem Pushed.owner {push : Push} (pushed : Pushed n push image) {j : Nat} (below : j < blocksOf push.file) :
    cstr (blockMessage image push.file j).request.block.ownerName = .ok push.name.text.bytes := by
  obtain ⟨fileBlock, placed⟩ := pushed.placed j below
  exact placed.owner

theorem Finished.stored (finished : Finished pushes s i image) (inv : PushInv pushes n₀ s) :
    Pushed s.namenode (pushes i) image ∧
      ∀ j < blocksOf (pushes i).file, HasBlock s.hosts image (pushes i).file (pushes i).name.text.bytes j := by
  obtain ⟨count, file, sending, stopped⟩ := finished.phase
  have ok := inv.phases i
  rw [sending] at ok
  obtain ⟨pushed, below, -, sent⟩ := ok
  have blocknum := pushed.blocknum
  refine ⟨pushed, ?_⟩
  intro j under
  rcases sent j (by omega) with waits | stored
  · exact absurd (pushed.owner under) (finished.handled _ waits)
  · exact stored

theorem Finished.apart {c : Fin k} {phase : Phase} (finished : Finished pushes s i image) (here : s.phases c = phase)
    (busy : ∀ fileInfo count file, phase ≠ .sending fileInfo count file) : c ≠ i := by
  rintro rfl
  obtain ⟨count, file, sending, -⟩ := finished.phase
  exact busy image count file (here.symm.trans sending)

/-- What is finished stays so, whatever the others do. -/
theorem Finished.stays (finished : Finished pushes s i image) (inv : PushInv pushes n₀ s)
    (distinct : ∀ i j, (pushes i).name.text.bytes = (pushes j).name.text.bytes → i = j)
    (small : ∀ i, (pushes i).file.length ≤ 102400) {a : Action k} (turn : Enabled a s) (run : perform pushes a s = .ok s') :
    Finished pushes s' i image := by
  obtain ⟨count, file, sending, stopped⟩ := finished.phase
  -- The phase is another client's.
  have other : ∀ {c phase}, c ≠ i → Function.update s.phases c phase i = .sending image count file := by
    intro c phase apart
    rw [Function.update_of_ne apart.symm]
    exact sending
  cases a with
  | heartbeat status ip =>
    obtain ⟨n', -, same⟩ := bind_ok run
    obtain rfl := Except.ok.inj same
    exact ⟨⟨count, file, sending, stopped⟩, finished.handled⟩
  | ask c request =>
    have apart := finished.apart turn (by simp)
    obtain ⟨fileName, -, same⟩ := bind_ok run
    obtain rfl := Except.ok.inj same
    exact ⟨⟨count, file, other apart, stopped⟩, finished.handled⟩
  | handle c fileBlock =>
    obtain ⟨-, request, requested⟩ := turn
    have apart := finished.apart requested (by simp)
    rw [perform, requested] at run
    obtain ⟨⟨reply, n'⟩, -, same⟩ := bind_ok run
    obtain rfl := Except.ok.inj same
    exact ⟨⟨count, file, other apart, stopped⟩, finished.handled⟩
  | receive c =>
    obtain ⟨reply, replied⟩ := turn
    have apart := finished.apart replied (by simp)
    rw [perform, replied] at run
    obtain ⟨fileInfo, -, same⟩ := bind_ok run
    obtain rfl := Except.ok.inj same
    exact ⟨⟨count, file, other apart, stopped⟩, finished.handled⟩
  | send c =>
    obtain ⟨image', count', file', here, more⟩ := turn
    have apart : c ≠ i := by
      rintro rfl
      obtain ⟨rfl, rfl, -⟩ := Phase.sending.inj (here.symm.trans sending)
      exact stopped more
    have ok := inv.phases c
    rw [here] at ok
    obtain ⟨pushed, below, rfl, -⟩ := ok
    have blocknum := pushed.blocknum
    have few : blocksOf (pushes c).file ≤ 100 := (blockCount_eq (small c)).2
    obtain ⟨fileBlock, placed⟩ := pushed.placed count' (by omega)
    have sent : pushBlock image' count' ((pushes c).file.drop (DFS_BLOCK_SIZE * count')) =
        .ok (blockMessage image' (pushes c).file count') := pushBlock_ok (by omega) placed
    rw [perform, here] at run
    dsimp only at run
    rw [sent, ok_bind] at run
    obtain rfl := Except.ok.inj run
    refine ⟨⟨count, file, other apart, stopped⟩, ?_⟩
    intro m member
    rcases List.mem_cons.mp member with rfl | old
    · rw [pushed.owner (by omega)]
      exact fun same => apart (distinct c i (Except.ok.inj same))
    · exact finished.handled m old
  | deliver place buffer =>
    have here : s.messages[place]? = some s.messages[place] := List.getElem?_eq_getElem turn
    rw [perform, here] at run
    obtain ⟨hosts, -, same⟩ := bind_ok run
    obtain rfl := Except.ok.inj same
    exact ⟨⟨count, file, sending, stopped⟩, fun m member => finished.handled m (List.mem_of_mem_eraseIdx member)⟩

theorem PullOk.mono (ok : PullOk pushes s i pull) (kept : ∀ image, Finished pushes s i image → Finished pushes s' i image) :
    PullOk pushes s' i pull := by
  cases pull with
  | idle => trivial
  | requested request =>
    obtain ⟨⟨image, finished⟩, rest⟩ := ok
    exact ⟨⟨image, kept image finished⟩, rest⟩
  | replied reply =>
    obtain ⟨image, same, finished⟩ := ok
    exact ⟨image, same, kept image finished⟩
  | reading image contents => exact ⟨kept image ok.1, ok.2⟩
  | asked image contents fileBlock address => exact ⟨kept image ok.1, ok.2⟩
  | served image contents fileBlock reply => exact ⟨kept image ok.1, ok.2⟩

/-! ### One action of a pull -/

/-- The reader goes on, and the system is as before. -/
theorem PullInv.advance (inv : PullInv pushes target n₀ t) (r : Fin m) (ok : PullOk pushes t.system (target r) pull) :
    PullInv pushes target n₀ (t.setPull r pull) := by
  refine ⟨inv.system, ?_⟩
  intro j
  show PullOk pushes t.system (target j) (Function.update t.pulls r pull j)
  by_cases self : j = r
  · subst self
    rw [Function.update_self]
    exact ok
  · rw [Function.update_of_ne self]
    exact inv.pulls j

theorem PullInv.ask (inv : PullInv pushes target n₀ t) (finished : ∃ image, Finished pushes t.system (target r) image)
    (request : ClientReq) : ∃ t', act pushes target (.ask r request) t = .ok t' ∧ PullInv pushes target n₀ t' := by
  have fits := (pushes (target r)).name.fits
  have fileName := strcpy_ok request.fileName (s := (pushes (target r)).name.text.bytes) (by omega)
  refine ⟨_, by rw [act, fileName, ok_bind], ?_⟩
  refine inv.advance r ⟨finished, ?_, rfl⟩
  exact cstr_strcpy _ (pushes (target r)).name.text.nonzero (by omega)

theorem PullInv.locate (inv : PullInv pushes target n₀ t) {request : ClientReq} (turn : t.pulls r = .requested request)
    (fileBlock : Int → BlockDesc) :
    ∃ t', act pushes target (.locate r fileBlock) t = .ok t' ∧ PullInv pushes target n₀ t' := by
  have ok := inv.pulls r
  rw [turn] at ok
  obtain ⟨⟨image, finished⟩, string, kind⟩ := ok
  obtain ⟨pushed, -⟩ := finished.stored inv.system
  obtain ⟨p, there⟩ := pushed.found
  have run : answer t.system.namenode request fileBlock = .ok (some (.file image), t.system.namenode) := by
    rw [answer, if_pos kind, getFileLocation_at inv.system.table there string]
  refine ⟨_, by rw [act, turn]; dsimp only; rw [run, ok_bind], ?_⟩
  exact inv.advance r ⟨image, rfl, finished⟩

theorem PullInv.receive (inv : PullInv pushes target n₀ t) {reply : Option Reply} (turn : t.pulls r = .replied reply) :
    ∃ t', act pushes target (.receive r) t = .ok t' ∧ PullInv pushes target n₀ t' := by
  have ok := inv.pulls r
  rw [turn] at ok
  obtain ⟨image, rfl, finished⟩ := ok
  refine ⟨t.setPull r (.reading image []), by rw [act, turn]; rfl, ?_⟩
  exact inv.advance r ⟨finished, Nat.zero_le _, rfl⟩

theorem PullInv.request (inv : PullInv pushes target n₀ t) (small : ∀ i, (pushes i).file.length ≤ 102400)
    {contents : List (Bytes DFS_BLOCK_SIZE)} (turn : t.pulls r = .reading image contents)
    (more : contents.length < image.blocknum) :
    ∃ t', act pushes target (.request r) t = .ok t' ∧ PullInv pushes target n₀ t' := by
  have ok := inv.pulls r
  rw [turn] at ok
  obtain ⟨finished, below, same⟩ := ok
  obtain ⟨pushed, -⟩ := finished.stored inv.system
  have blocknum := pushed.blocknum
  have few : blocksOf (pushes (target r)).file ≤ 100 := (blockCount_eq (small (target r))).2
  obtain ⟨fileBlock, placed⟩ := pushed.placed contents.length (by omega)
  have address := placed.connect (image.entry contents.length).content
  have inside : contents.length < 100 := by omega
  refine ⟨_, by rw [act, turn]; dsimp only; rw [block_ok image inside, ok_bind, address, ok_bind], ?_⟩
  exact inv.advance r ⟨finished, by omega, same, rfl, rfl⟩

/-- A datanode that is asked for a block of a finished push has it, and keeps what it has. -/
theorem PullInv.serve (inv : PullInv pushes target n₀ t) (small : ∀ i, (pushes i).file.length ≤ 102400)
    (ends : ∀ image : FileDesc, ∀ j < blocksOf (pushes (target r)).file,
      0 ∈ (sentContent image (pushes (target r)).file j).toList)
    {contents : List (Bytes DFS_BLOCK_SIZE)} {fileBlock : BlockDesc} {address : Address}
    (turn : t.pulls r = .asked image contents fileBlock address) (buffer : Bytes DFS_BLOCK_SIZE) :
    ∃ t', act pushes target (.serve r buffer) t = .ok t' ∧ PullInv pushes target n₀ t' := by
  have ok := inv.pulls r
  rw [turn] at ok
  obtain ⟨finished, below, same, rfl, rfl⟩ := ok
  obtain ⟨pushed, stored⟩ := finished.stored inv.system
  have few : blocksOf (pushes (target r)).file ≤ 100 := (blockCount_eq (small (target r))).2
  obtain ⟨fileBlock, placed⟩ := pushed.placed contents.length below
  have zero := ends image contents.length below
  have short := length_scan_lt zero
  rw [Bytes.length_toList] at short
  have string : cstr (sentContent image (pushes (target r)).file contents.length) =
      .ok (scan (sentContent image (pushes (target r)).file contents.length).toList) := if_pos zero
  have served := serve_read (by omega) (pushes (target r)).name.fits placed (stored _ below) buffer
  rw [string, ok_bind] at served
  refine ⟨_, by rw [act, turn]; dsimp only; rw [served, ok_bind], ?_⟩
  dsimp only
  rw [Function.update_eq_self]
  refine inv.advance r ⟨finished, below, same, rfl, _, rfl, ?_⟩
  exact cstr_strcpy BlockDesc.zero.content (fun c member => scan_nonzero member) short

theorem PullInv.store (inv : PullInv pushes target n₀ t) {contents : List (Bytes DFS_BLOCK_SIZE)} {fileBlock : BlockDesc}
    (ends : ∀ image : FileDesc, ∀ j < blocksOf (pushes (target r)).file,
      0 ∈ (sentContent image (pushes (target r)).file j).toList)
    {reply : Option BlockDesc} (turn : t.pulls r = .served image contents fileBlock reply) :
    ∃ t', act pushes target (.store r) t = .ok t' ∧ PullInv pushes target n₀ t' := by
  have ok := inv.pulls r
  rw [turn] at ok
  obtain ⟨finished, below, same, rfl, returned, rfl, string⟩ := ok
  have short := length_scan_lt (ends image contents.length below)
  rw [Bytes.length_toList] at short
  have copied := strcpy_ok (image.entry contents.length).content
    (s := scan (sentContent image (pushes (target r)).file contents.length).toList) short
  refine ⟨_, by rw [act, turn]; dsimp only [Dfs.receive]; rw [ok_bind, string, ok_bind, copied, ok_bind], ?_⟩
  refine inv.advance r ⟨finished, ?_, ?_⟩
  · rw [List.length_append, List.length_singleton]
    omega
  · rw [List.length_append, List.length_singleton, List.range_succ, List.map_append, List.map_singleton, ← same]
    rfl

/-! ### Whole files -/

/-- A file that `pull_file` can return: whole blocks, and the only zero of each is its last byte. -/
structure Pullable (file : List UInt8) : Prop where
  whole : file.length % DFS_BLOCK_SIZE = 0
  ended : ZeroEnded file

variable {file : List UInt8}

theorem Pullable.length (pullable : Pullable file) : file.length = 1024 * blocksOf file := by
  have whole : file.length % 1024 = 0 := pullable.whole
  unfold blocksOf
  omega

theorem Pullable.sent (pullable : Pullable file) (image : FileDesc) {j : Nat} (below : j < blocksOf file) :
    (sentContent image file j).toList = scan (sentContent image file j).toList ++ [0] := by
  have length := pullable.length
  have whole : (sentContent image file j).toList = piece file 1024 j := sentContent_whole (by omega)
  rw [whole, (zeroEnded_iff length).mp pullable.ended j below]

theorem Pullable.ends (pullable : Pullable file) (image : FileDesc) {j : Nat} (below : j < blocksOf file) :
    0 ∈ (sentContent image file j).toList := by
  rw [pullable.sent image below]
  exact List.mem_append_right _ (List.mem_cons_self ..)

/-- The blocks that are pulled are the file. -/
theorem Pullable.pulled (pullable : Pullable file) (image : FileDesc) :
    (List.range (blocksOf file)).flatMap (fun j => (Dfs.pulled image file j).toList) = file := by
  have length := pullable.length
  have each : (List.range (blocksOf file)).flatMap (fun j => (Dfs.pulled image file j).toList) =
      (List.range (blocksOf file)).flatMap (piece file 1024) := by
    refine List.flatMap_congr fun j member => ?_
    have below := List.mem_range.mp member
    have whole : (sentContent image file j).toList = piece file 1024 j := sentContent_whole (by omega)
    rw [Dfs.pulled, ← pullable.sent image below, whole]
    exact Bytes.toList_patch _ (length_piece (by omega))
  rw [each, flatMap_piece, List.take_of_length_le (by omega)]

/-! ### Runs -/

/-- Every client has pushed and every reader has pulled. -/
structure Traffic.Quiet (t : Traffic k m) : Prop where
  system : Dfs.Quiet t.system
  pulls : ∀ r, ∃ file, (t.pulls r).Wrote file

theorem PullInv.wrote (inv : PullInv pushes target n₀ t) (pullable : ∀ r, Pullable (pushes (target r)).file)
    (wrote : (t.pulls r).Wrote file) : file = (pushes (target r)).file := by
  obtain ⟨image, contents, here, stopped, rfl⟩ := wrote
  have ok := inv.pulls r
  rw [here] at ok
  obtain ⟨finished, below, same⟩ := ok
  obtain ⟨pushed, -⟩ := finished.stored inv.system
  have blocknum := pushed.blocknum
  have all : contents.length = blocksOf (pushes (target r)).file := by omega
  rw [all] at same
  rw [same, List.flatMap_map]
  exact (pullable r).pulled image

/-- Some party can always go on until everything is pushed and pulled. -/
theorem PullInv.quiet_or_enabled (inv : PullInv pushes target n₀ t) :
    t.Quiet ∨ ∃ a : Act k m, a.OfTransfer ∧ a.Enabled pushes target t := by
  rcases inv.system.quiet_or_enabled with quiet | ⟨a, ofPush, turn⟩
  · by_cases all : ∀ r, ∃ file, (t.pulls r).Wrote file
    · exact .inl ⟨quiet, all⟩
    · right
      obtain ⟨r, busy⟩ := not_forall.mp all
      cases phase : t.pulls r with
      | idle =>
        obtain ⟨image, count, file, sending, stopped⟩ := quiet.finished (target r)
        refine ⟨.ask r ⟨.zero, 0, 0⟩, trivial, phase, image, ⟨count, file, sending, stopped⟩, ?_⟩
        rw [quiet.messages]
        intro message member
        cases member
      | requested request => exact ⟨.locate r fun _ => .zero, trivial, inv.system.served, request, phase⟩
      | replied reply => exact ⟨.receive r, trivial, reply, phase⟩
      | reading fileInfo contents =>
        refine ⟨.request r, trivial, fileInfo, contents, phase, ?_⟩
        by_contra stopped
        exact busy ⟨_, fileInfo, contents, phase, stopped, rfl⟩
      | asked fileInfo contents fileBlock address =>
        exact ⟨.serve r .zero, trivial, fileInfo, contents, fileBlock, address, phase⟩
      | served fileInfo contents fileBlock reply => exact ⟨.store r, trivial, fileInfo, contents, fileBlock, reply, phase⟩
  · exact .inr ⟨.push a, ofPush, turn⟩

/-- How many actions are left for a pull. Each block takes one to ask for it, one to send it and one to store it. -/
def Pull.left (push : Push) : Pull → Nat
  | .idle => 3 * blocksOf push.file + 3
  | .requested _ => 3 * blocksOf push.file + 2
  | .replied _ => 3 * blocksOf push.file + 1
  | .reading _ contents => 3 * (blocksOf push.file - contents.length)
  | .asked _ contents _ _ => 3 * (blocksOf push.file - contents.length) - 1
  | .served _ contents _ _ => 3 * (blocksOf push.file - contents.length) - 2

def Traffic.left (pushes : Fin k → Push) (target : Fin m → Fin k) (t : Traffic k m) : Nat :=
  t.system.left pushes + ∑ r, (t.pulls r).left (pushes (target r))

theorem setPull_left_lt (less : pull.left (pushes (target r)) < (t.pulls r).left (pushes (target r)))
    (same : s.left pushes = t.system.left pushes) :
    Traffic.left pushes target ({ t with system := s }.setPull r pull) < t.left pushes target := by
  have moved := sum_update (fun r pull => Pull.left (pushes (target r)) pull) t.pulls r pull
  unfold Traffic.left Traffic.setPull
  dsimp only
  omega

theorem PullInv.spends (inv : PullInv pushes target n₀ t) {t' : Traffic k m} {a : Act k m} (ofTransfer : a.OfTransfer)
    (turn : a.Enabled pushes target t) (run : act pushes target a t = .ok t') : t'.left pushes target < t.left pushes target := by
  cases a with
  | push a =>
    obtain ⟨s', pushed, same⟩ := bind_ok run
    obtain rfl := Except.ok.inj same
    exact Nat.add_lt_add_right (inv.system.spends ofTransfer turn pushed) _
  | ask r request =>
    obtain ⟨fileName, -, same⟩ := bind_ok run
    obtain rfl := Except.ok.inj same
    refine setPull_left_lt ?_ rfl
    rw [turn.1, Pull.left, Pull.left]
    omega
  | locate r fileBlock =>
    obtain ⟨-, request, requested⟩ := turn
    rw [act, requested] at run
    obtain ⟨⟨reply, n'⟩, -, same⟩ := bind_ok run
    obtain rfl := Except.ok.inj same
    refine setPull_left_lt ?_ rfl
    rw [requested, Pull.left, Pull.left]
    omega
  | receive r =>
    obtain ⟨reply, replied⟩ := turn
    rw [act, replied] at run
    obtain ⟨image, -, same⟩ := bind_ok run
    obtain rfl := Except.ok.inj same
    refine setPull_left_lt ?_ rfl
    rw [replied, Pull.left, Pull.left, List.length_nil]
    omega
  | request r =>
    obtain ⟨image, contents, reading, more⟩ := turn
    have ok := inv.pulls r
    rw [reading] at ok
    obtain ⟨pushed, -⟩ := ok.1.stored inv.system
    have blocknum := pushed.blocknum
    rw [act, reading] at run
    obtain ⟨fileBlock, -, run⟩ := bind_ok run
    obtain ⟨address, -, same⟩ := bind_ok run
    obtain rfl := Except.ok.inj same
    refine setPull_left_lt ?_ rfl
    rw [reading, Pull.left, Pull.left]
    omega
  | serve r buffer =>
    obtain ⟨image, contents, fileBlock, address, asked⟩ := turn
    have ok := inv.pulls r
    rw [asked] at ok
    have more := ok.2.1
    rw [act, asked] at run
    obtain ⟨⟨reply, host⟩, -, same⟩ := bind_ok run
    obtain rfl := Except.ok.inj same
    refine setPull_left_lt ?_ rfl
    rw [asked, Pull.left, Pull.left]
    omega
  | store r =>
    obtain ⟨image, contents, fileBlock, reply, served⟩ := turn
    have ok := inv.pulls r
    rw [served] at ok
    have more := ok.2.1
    rw [act, served] at run
    obtain ⟨returned, -, run⟩ := bind_ok run
    obtain ⟨bytes, -, run⟩ := bind_ok run
    obtain ⟨content, -, same⟩ := bind_ok run
    obtain rfl := Except.ok.inj same
    refine setPull_left_lt ?_ rfl
    rw [served, Pull.left, Pull.left, List.length_append, List.length_singleton]
    omega

theorem PullInv.keeps (ready : NewPushes pushes h n) (pullable : ∀ r, Pullable (pushes (target r)).file) (a : Act k m)
    (t : Traffic k m) (inv : PullInv pushes target n t) (turn : a.Enabled pushes target t) :
    ∃ t', act pushes target a t = .ok t' ∧ PullInv pushes target n t' := by
  have small : ∀ i, (pushes i).file.length ≤ 102400 := ready.small
  cases a with
  | push a =>
    obtain ⟨s', run, inv'⟩ := ready.keeps a t.system inv.system turn
    refine ⟨{ t with system := s' }, by rw [act, run, ok_bind], inv', ?_⟩
    intro r
    exact (inv.pulls r).mono fun image finished => finished.stays inv.system ready.distinct small turn run
  | ask r request => exact inv.ask turn.2 request
  | locate r fileBlock =>
    obtain ⟨-, request, requested⟩ := turn
    exact inv.locate requested fileBlock
  | receive r =>
    obtain ⟨reply, replied⟩ := turn
    exact inv.receive replied
  | request r =>
    obtain ⟨fileInfo, contents, reading, more⟩ := turn
    exact inv.request small reading more
  | serve r buffer =>
    obtain ⟨fileInfo, contents, fileBlock, address, asked⟩ := turn
    exact inv.serve small (fun image j below => (pullable r).ends image below) asked buffer
  | store r =>
    obtain ⟨fileInfo, contents, fileBlock, reply, served⟩ := turn
    exact inv.store (fun image j below => (pullable r).ends image below) served

theorem PullInv.exists_quiet (ready : NewPushes pushes h n) (pullable : ∀ r, Pullable (pushes (target r)).file)
    (inv : PullInv pushes target n t) :
    ∃ acts t', Meets (act pushes target) (Act.Enabled pushes target) acts t ∧ runAll (act pushes target) acts t = .ok t' ∧
      t'.Quiet := by
  refine exists_run (Traffic.left pushes target) (fun t inv => ?_) inv
  rcases inv.quiet_or_enabled with quiet | ⟨a, ofTransfer, turn⟩
  · exact .inl quiet
  · obtain ⟨t', run, inv'⟩ := PullInv.keeps ready pullable a t inv turn
    exact .inr ⟨a, t', turn, run, inv', inv.spends ofTransfer turn run⟩

/-- Readers that start when the push of their file has finished, while other files are pushed and other readers pull:
however the actions follow each other, every action is handled, some party can go on until all is done, and what a
reader writes is the file that was pushed. -/
theorem pulls_return_pushed (ready : NewPushes pushes h n) (pullable : ∀ r, Pullable (pushes (target r)).file) (hosts : Hosts)
    (acts : List (Act k m))
    (meets : Meets (act pushes target) (Act.Enabled pushes target) acts ⟨⟨n, hosts, fun _ => .idle, []⟩, fun _ => .idle⟩) :
    ∃ t, runAll (act pushes target) acts ⟨⟨n, hosts, fun _ => .idle, []⟩, fun _ => .idle⟩ = .ok t ∧
      (t.Quiet ∨ ∃ a : Act k m, a.OfTransfer ∧ a.Enabled pushes target t) ∧
      ∀ r file, (t.pulls r).Wrote file → file = (pushes (target r)).file := by
  have start : PullInv pushes target n ⟨⟨n, hosts, fun _ => .idle, []⟩, fun _ => .idle⟩ := ⟨ready.inv hosts, fun r => trivial⟩
  obtain ⟨t, run, inv⟩ := runAll_keeps (PullInv pushes target n) (PullInv.keeps ready pullable) start meets
  exact ⟨t, run, inv.quiet_or_enabled, fun r file wrote => inv.wrote pullable wrote⟩

/-- One block whose only zero is its last byte. -/
def fullBlock : List UInt8 := List.replicate 1023 1 ++ [0]

theorem length_fullBlock : fullBlock.length = 1024 := by
  rw [fullBlock, List.length_append, List.length_replicate, List.length_singleton]

theorem fullBlock_pullable : Pullable fullBlock := by
  constructor
  case whole =>
    rw [length_fullBlock]
    decide
  case ended =>
    intro i inside
    rw [length_fullBlock] at inside
    show _ ↔ i % 1024 = 1023
    rw [Nat.mod_eq_of_lt inside, fullBlock, List.getElem?_append, List.length_replicate, List.getElem?_replicate]
    by_cases low : i < 1023
    · rw [if_pos low, if_pos low]
      exact iff_of_false (fun zero => absurd (Option.some.inj zero) (by decide)) (by omega)
    · obtain rfl : i = 1023 := by omega
      decide

def onePush : Fin 1 → Push := fun _ => ⟨(twoPushes 0).name, fullBlock⟩

theorem onePush_new : NewPushes onePush oneHeartbeat oneRegistered where
  reached := oneRegistered_reached
  registered := ⟨0, rfl⟩
  distinct := by decide
  new := by
    intro i p image there
    cases there.entry
  small := by
    intro i
    show fullBlock.length ≤ 102400
    rw [length_fullBlock]
    decide
  room := by
    have all : free oneRegistered = Finset.univ := Finset.filter_true_of_mem fun p _ => rfl
    rw [all, Finset.card_univ, Fintype.card_fin]
    decide

/-- The run goes on until the reader has written. -/
theorem onePush_pulled : ∃ acts t, runAll (act onePush fun _ : Fin 1 => 0) acts
      ⟨⟨oneRegistered, emptyHosts, fun _ => .idle, []⟩, fun _ => .idle⟩ = .ok t ∧ t.Quiet ∧ (t.pulls 0).Wrote fullBlock := by
  have start : PullInv onePush (fun _ : Fin 1 => 0) oneRegistered
      ⟨⟨oneRegistered, emptyHosts, fun _ => .idle, []⟩, fun _ => .idle⟩ := ⟨onePush_new.inv emptyHosts, fun r => trivial⟩
  obtain ⟨acts, t, meets, run, quiet⟩ := PullInv.exists_quiet onePush_new (fun _ => fullBlock_pullable) start
  obtain ⟨t', run', -, wrote⟩ := pulls_return_pushed onePush_new (fun _ => fullBlock_pullable) emptyHosts acts meets
  obtain rfl := Except.ok.inj (run.symm.trans run')
  obtain ⟨file, done⟩ := quiet.pulls 0
  obtain rfl : file = fullBlock := wrote 0 file done
  exact ⟨acts, t, run, quiet, done⟩

end StorageStack.Dfs
