import StorageStack.Dfs.Transfer

/-!
# Requests to the namenode

Heartbeats and requests reach the namenode in any order; in safe mode no connection for a request is accepted.
A request leaves the table of files as it is or sets one entry, in which the blocks from `blocknum` on are placed.
-/

namespace StorageStack.Dfs
open Lib CString

/-- What reaches the namenode. `fileBlock` is what the local of that name holds in each round. -/
inductive Event where
  | heartbeat (status : DatanodeStatus) (ip : IpString)
  | request (request : ClientReq) (fileBlock : Int → BlockDesc)

def Namenode.initial : Namenode := { dnlist := fun _ => none, fileImages := fun _ => none, dncnt := 0, safeMode := true }

def Event.run (n : Namenode) : Event → Outcome (Option Reply × Namenode)
  | heartbeat status ip => do .ok (none, ← registerDatanode n status ip)
  | request r fileBlock => answer n r fileBlock

/-- The number of blocks of a file, without any overflow. -/
def blocksFor (fileSize : Int) : Int := (fileSize + (DFS_BLOCK_SIZE - 1)) / DFS_BLOCK_SIZE

/-- Entry `i` is the image of the name. -/
structure ImageAt (n : Namenode) (name : List UInt8) (i : Fin MAX_FILE_COUNT) (image : FileDesc) : Prop where
  entry : n.fileImages i = some image
  name : cstr image.filename = .ok name

/-- No block index that a request for this entry uses reaches 100. -/
def InRange (image : FileDesc) (r : ClientReq) : Prop :=
  (r.reqType = 1 → image.blocknum + blocksFor r.fileSize ≤ MAX_FILE_BLK_COUNT) ∧
    (r.reqType = 3 → blocksFor r.fileSize ≤ MAX_FILE_BLK_COUNT)

/-- A request for a name with the sizes the table has room for. -/
structure FineRequest (n : Namenode) (r : ClientReq) (name : List UInt8) : Prop where
  size : 0 ≤ r.fileSize
  string : cstr r.fileName = .ok name
  old : ∀ i image, ImageAt n name i image → InRange image r
  new : (∀ i image, ¬ ImageAt n name i image) → (∃ i, n.fileImages i = none) → r.reqType = 1 →
    blocksFor r.fileSize ≤ MAX_FILE_BLK_COUNT

/-- The ids of datanodes are positive, and requests are served only after the safe mode. -/
def Event.Fine (n : Namenode) : Event → Prop
  | heartbeat status _ => 1 ≤ status.datanodeId
  | request r _ => n.safeMode = false ∧ ∃ name, FineRequest n r name

/-- What has reached the namenode with the replies, the latest first. -/
abbrev History := List (Event × Option Reply)

inductive Reaches : History → Namenode → Prop
  | initial : Reaches [] .initial
  | step {h : History} {n n' : Namenode} {e : Event} {reply : Option Reply} :
      Reaches h n → e.Fine n → e.run n = .ok (reply, n') → Reaches ((e, reply) :: h) n'

variable {n n' : Namenode} {r : ClientReq} {name : List UInt8} {fileBlock : Int → BlockDesc} {image image' : FileDesc}
  {i : Fin MAX_FILE_COUNT} {reply : Option Reply}

/-! ### What a request does -/

structure TableOk (n : Namenode) : Prop where
  named : Named n
  distinct : ∀ i j image image' name, ImageAt n name i image → ImageAt n name j image' → i = j
  filled : ∃ count, ∀ i : Fin MAX_FILE_COUNT, (n.fileImages i).isSome ↔ i.val < count
  blocknum : ∀ i image, n.fileImages i = some image → 0 ≤ image.blocknum ∧ image.blocknum ≤ MAX_FILE_BLK_COUNT
  nodes : ∀ i image, n.fileImages i = some image → ∀ k, 0 ≤ (image.entry k).dnId

/-- The blocks from `blocknum` on are placed, at least as far as the new `blocknum`. -/
structure Extended (n : Namenode) (name : List UInt8) (image image' : FileDesc) : Prop where
  filename : cstr image'.filename = .ok name
  blocknum : 0 ≤ image'.blocknum ∧ image'.blocknum ≤ MAX_FILE_BLK_COUNT
  blocks : ∀ k : Nat, image'.entry k = image.entry k ∧ (image'.blocknum ≤ k ∨ k < image.blocknum) ∨
    ∃ fileBlock, Placed n name fileBlock k (image'.entry k)

/-- The image of the name, or a new one in the first free place. -/
inductive Place (n : Namenode) (r : ClientReq) (name : List UInt8) (i : Fin MAX_FILE_COUNT) (image : FileDesc) : Prop
  | old : ImageAt n name i image → Place n r name i image
  | new : r.reqType = 1 → (∀ j other, ¬ ImageAt n name j other) → n.fileImages i = none → (∀ j < i, (n.fileImages j).isSome) →
      image.blocknum = 0 → (∀ k, image.entry k = .zero) → Place n r name i image

inductive Handled (n : Namenode) (r : ClientReq) (name : List UInt8) : Option Reply → Namenode → Prop
  | status : r.reqType = 2 → Handled n r name (some (.status n.dncnt)) n
  | ignored : r.reqType ≠ 0 → r.reqType ≠ 1 → Handled n r name none n
  | absent : r.reqType = 0 ∨ r.reqType = 3 → (∀ i image, ¬ ImageAt n name i image) → Handled n r name none n
  | full : r.reqType = 1 → (∀ i image, ¬ ImageAt n name i image) → (∀ i, (n.fileImages i).isSome) → Handled n r name none n
  | found (i : Fin MAX_FILE_COUNT) (image : FileDesc) : r.reqType = 0 ∨ r.reqType = 3 → ImageAt n name i image →
      Handled n r name (some (.file image)) n
  | stored (i : Fin MAX_FILE_COUNT) (image image' : FileDesc) : r.reqType = 1 ∨ r.reqType = 3 → Place n r name i image →
      Extended n name image image' → (r.reqType = 1 → image'.blocknum = blocksFor r.fileSize) →
      Handled n r name (some (.file image')) { n with fileImages := Function.update n.fileImages i (some image') }

theorem scan_of_cstr {k : Nat} {mem : Bytes k} (ends : 0 ∈ mem.toList) : cstr mem = .ok (scan mem.toList) := if_pos ends

theorem imageAt_iff (named : Named n) :
    ImageAt n name i image ↔ n.fileImages i = some image ∧ scan image.filename.toList = name := by
  constructor
  · intro there
    exact ⟨there.entry, cstr_eq there.name⟩
  · intro ⟨entry, same⟩
    exact ⟨entry, same ▸ scan_of_cstr (named i image entry)⟩

theorem findImage_cases (table : TableOk n) (nonzero : ∀ c ∈ name, c ≠ 0) :
    (∃ i image, ImageAt n name i image ∧ findImage n name (List.finRange MAX_FILE_COUNT) = .ok (some (i, image))) ∨
      (∀ i image, ¬ ImageAt n name i image) ∧ findImage n name (List.finRange MAX_FILE_COUNT) = .ok none := by
  by_cases present : ∃ i image, ImageAt n name i image
  · left
    obtain ⟨i, image, there⟩ := present
    have here := (imageAt_iff table.named).mp there
    refine ⟨i, image, there, findImage_present table.named nonzero here.1 here.2 ?_⟩
    intro j other apart entry same
    exact apart (table.distinct j i other image name ((imageAt_iff table.named).mpr ⟨entry, same⟩) there)
  · right
    have absent : ∀ i image, ¬ ImageAt n name i image := by
      intro i image there
      exact present ⟨i, image, there⟩
    refine ⟨absent, findImage_absent table.named nonzero ?_ _⟩
    intro i image entry same
    exact absent i image ((imageAt_iff table.named).mpr ⟨entry, same⟩)

theorem blockCount_blocksFor {size : Int} (low : 0 ≤ size) (few : blocksFor size ≤ 100) :
    blockCount size = blocksFor size ∧ 0 ≤ blocksFor size := by
  have bound : (size + 1023) / 1024 ≤ 100 := few
  have sum : toInt32 (size + 1023) = size + 1023 := toInt32_of_range (by omega) (by omega)
  constructor
  · show (toInt32 (size + 1023)).tdiv 1024 = (size + 1023) / 1024
    rw [sum, Int.tdiv_eq_ediv_of_nonneg (by omega)]
  · show 0 ≤ (size + 1023) / 1024
    omega

theorem Assigned.extended {start : FileDesc} {lo hi : Nat} (assigned : Assigned n name fileBlock lo hi start image')
    (filename : cstr start.filename = .ok name) (entries : ∀ k, start.entry k = image.entry k) (below : image.blocknum = lo)
    (nonneg : 0 ≤ start.blocknum) (upto : start.blocknum ≤ hi)
    (few : hi ≤ MAX_FILE_BLK_COUNT) : Extended n name image image' := by
  have blocknum := assigned.blocknum
  refine ⟨?_, ?_, ?_⟩
  · rw [assigned.filename, filename]
  · omega
  · intro k
    by_cases placed : lo ≤ k ∧ k < hi
    · exact .inr ⟨fileBlock, assigned.placed k placed.1 placed.2⟩
    · refine .inl ⟨(assigned.kept k (by omega)).trans (entries k), ?_⟩
      omega

/-! ### Each kind of request -/

theorem getFileLocation_ok (table : TableOk n) (fine : FineRequest n r name) (kind : r.reqType = 0) :
    ∃ reply n', getFileLocation n r = .ok (reply, n') ∧ Handled n r name reply n' := by
  have nonzero := cstr_nonzero fine.string
  rw [getFileLocation, fine.string, ok_bind]
  rcases findImage_cases table nonzero with ⟨i, image, there, found⟩ | ⟨absent, missing⟩
  · rw [found, ok_bind]
    exact ⟨_, _, rfl, .found i image (.inl kind) there⟩
  · rw [missing, ok_bind]
    exact ⟨_, _, rfl, .absent (.inl kind) absent⟩

theorem assignFrom_ok {start : FileDesc} {remaining : Int} (registered : Registered n) (nonzero : ∀ c ∈ name, c ≠ 0)
    (fits : name.length ≤ 255) (stride next : Fin MAX_DATANODE_NUM) (filename : cstr start.filename = .ok name)
    (entries : ∀ k, start.entry k = image.entry k) (low : 0 ≤ image.blocknum) (some : 0 ≤ remaining)
    (inside : image.blocknum + remaining ≤ MAX_FILE_BLK_COUNT) (nonneg : 0 ≤ start.blocknum)
    (upto : start.blocknum ≤ image.blocknum + remaining) :
    ∃ image', assignBlocks n name fileBlock stride remaining.toNat image.blocknum next start = .ok image' ∧
      Extended n name image image' ∧ image'.blocknum = start.blocknum := by
  obtain ⟨lo, below⟩ := Int.eq_ofNat_of_zero_le low
  obtain ⟨count, rfl⟩ := Int.eq_ofNat_of_zero_le some
  obtain ⟨image', run, assigned⟩ :=
    @assignBlocks_ok n name fileBlock start registered nonzero fits stride count lo (by omega) next
  rw [below, Int.toNat_natCast]
  exact ⟨image', run, assigned.extended filename entries below nonneg (by omega) (by omega), assigned.blocknum⟩

theorem find?_finRange_lt {k : Nat} {p : Fin k → Option FileDesc} {i : Fin k}
    (free : (List.finRange k).find? (fun i => (p i).isNone) = some i) : ∀ j < i, (p j).isSome := by
  intro j earlier
  obtain ⟨-, place, inside, here, before⟩ := List.find?_eq_some_iff_getElem.mp free
  rw [List.getElem_finRange] at here
  have index : i.val = place := by
    rw [← here]
    rfl
  have taken := before j.val (by omega)
  rw [List.getElem_finRange] at taken
  cases entry : p j with
  | some image => rfl
  | none =>
    have same : Fin.cast (List.length_finRange) ⟨j.val, by rw [List.length_finRange]; exact j.isLt⟩ = j := rfl
    rw [same, entry] at taken
    cases taken

theorem getFileReceivers_ok (table : TableOk n) (registered : Registered n) (fine : FineRequest n r name) (kind : r.reqType = 1) :
    ∃ reply n', getFileReceivers n r fileBlock = .ok (reply, n') ∧ Handled n r name reply n' := by
  have nonzero := cstr_nonzero fine.string
  have short := cstr_length fine.string
  rw [getFileReceivers, fine.string, ok_bind, imageFor]
  rcases findImage_cases table nonzero with ⟨i, image, there, found⟩ | ⟨absent, missing⟩
  · have range : image.blocknum + blocksFor r.fileSize ≤ 100 := (fine.old i image there).1 kind
    have blocknum := table.blocknum i image there.entry
    obtain ⟨count, some⟩ := blockCount_blocksFor fine.size (by omega)
    obtain ⟨image', run, extended, blocks⟩ := @assignFrom_ok n name fileBlock image
      { image with blocknum := blocksFor r.fileSize } _ registered
      nonzero (by omega) 1 0 there.name (fun k => rfl) blocknum.1 some range some (show blocksFor r.fileSize ≤ _ by omega)
    rw [found, ok_bind]
    dsimp only
    rw [ok_bind]
    dsimp only
    rw [count, run, ok_bind]
    exact ⟨_, _, rfl, .stored i image image' (.inl kind) (.old there) extended fun _ => blocks⟩
  · rw [missing, ok_bind]
    dsimp only
    cases free : (List.finRange MAX_FILE_COUNT).find? fun i => (n.fileImages i).isNone with
    | none =>
      have all : ∀ i, (n.fileImages i).isSome := by
        intro i
        have taken := List.find?_eq_none.mp free i (List.mem_finRange i)
        cases entry : n.fileImages i with
        | some image => rfl
        | none =>
          rw [entry] at taken
          exact absurd rfl taken
      exact ⟨_, _, rfl, .full kind absent all⟩
    | some i =>
      have empty : n.fileImages i = none :=
        Option.isNone_iff_eq_none.mp (List.find?_some (p := fun i => (n.fileImages i).isNone) free)
      have range : blocksFor r.fileSize ≤ 100 := fine.new absent ⟨i, empty⟩ kind
      obtain ⟨count, some⟩ := blockCount_blocksFor fine.size range
      have filename := strcpy_ok FileDesc.zero.filename (s := name) (by omega)
      let fresh : FileDesc :=
        { FileDesc.zero with filename := FileDesc.zero.filename.patch 0 (name ++ [0]), fileSize := r.fileSize }
      have before := find?_finRange_lt free
      obtain ⟨image', run, extended, blocks⟩ := @assignFrom_ok n name fileBlock fresh
        { fresh with blocknum := blocksFor r.fileSize } _ registered
        nonzero (by omega) 1 0 (cstr_strcpy _ nonzero (by omega)) (fun k => rfl) (Int.le_refl 0) some
        (show 0 + blocksFor r.fileSize ≤ 100 by omega) some (show blocksFor r.fileSize ≤ 0 + _ by omega)
      dsimp only
      rw [filename, ok_bind, ok_bind]
      dsimp only
      rw [count]
      show ∃ reply n', (assignBlocks n name fileBlock 1 (blocksFor r.fileSize).toNat fresh.blocknum 0 _ >>= _) = _ ∧ _
      rw [run, ok_bind]
      have entries : ∀ k, fresh.entry k = .zero := by
        intro k
        unfold FileDesc.entry
        split <;> rfl
      exact ⟨_, _, rfl, .stored i fresh image' (.inl kind) (.new kind absent empty before rfl entries) extended fun _ => blocks⟩

theorem datanodeIndex_ok {id : Int} (low : 0 ≤ id) : ∃ index, datanodeIndex id = .ok index := by
  have nonneg : 0 ≤ id.tmod 10 := Int.tmod_nonneg 10 low
  have small : id.tmod 10 < 10 := Int.tmod_lt_of_pos id (by decide)
  exact ⟨_, dif_pos ⟨nonneg, small⟩⟩

theorem getFileUpdatePoint_ok (table : TableOk n) (registered : Registered n) (fine : FineRequest n r name)
    (kind : r.reqType = 3) :
    ∃ reply n', getFileUpdatePoint n r = .ok (reply, n') ∧ Handled n r name reply n' := by
  have nonzero := cstr_nonzero fine.string
  have short := cstr_length fine.string
  rw [getFileUpdatePoint, fine.string, ok_bind]
  rcases findImage_cases table nonzero with ⟨i, image, there, found⟩ | ⟨absent, missing⟩
  · have range : blocksFor r.fileSize ≤ 100 := (fine.old i image there).2 kind
    have blocknum := table.blocknum i image there.entry
    obtain ⟨count, some⟩ := blockCount_blocksFor fine.size range
    rw [found, ok_bind]
    dsimp only
    rw [count]
    by_cases more : image.blocknum < blocksFor r.fileSize
    · obtain ⟨lo, below⟩ := Int.eq_ofNat_of_zero_le blocknum.1
      have last : image.block image.blocknum = .ok (image.entry lo) := by
        rw [below]
        exact block_ok image (show lo < 100 by omega)
      obtain ⟨index, start⟩ := datanodeIndex_ok (table.nodes i image there.entry lo)
      obtain ⟨image', run, extended, -⟩ :=
        @assignFrom_ok n name (fun _ => .zero) image image (blocksFor r.fileSize - image.blocknum) registered
        nonzero (by omega) 0 index there.name (fun k => rfl) blocknum.1 (by omega)
        (show image.blocknum + (blocksFor r.fileSize - image.blocknum) ≤ 100 by omega) blocknum.1 (by omega)
      rw [if_pos more, last, ok_bind, start, ok_bind, run, ok_bind]
      refine ⟨_, _, rfl, .stored i image image' (.inr kind) (.old there) extended ?_⟩
      intro write
      omega
    · rw [if_neg more]
      exact ⟨_, _, rfl, .found i image (.inr kind) there⟩
  · rw [missing, ok_bind]
    exact ⟨_, _, rfl, .absent (.inr kind) absent⟩

theorem answer_ok (table : TableOk n) (registered : Registered n) (fine : FineRequest n r name) :
    ∃ reply n', answer n r fileBlock = .ok (reply, n') ∧ Handled n r name reply n' := by
  unfold answer
  by_cases read : r.reqType = 0
  · rw [if_pos read]
    exact getFileLocation_ok table fine read
  rw [if_neg read]
  by_cases write : r.reqType = 1
  · rw [if_pos write]
    exact getFileReceivers_ok table registered fine write
  rw [if_neg write]
  by_cases query : r.reqType = 2
  · rw [if_pos query]
    exact ⟨_, _, rfl, .status query⟩
  rw [if_neg query]
  by_cases modify : r.reqType = 3
  · rw [if_pos modify]
    exact getFileUpdatePoint_ok table registered fine modify
  · rw [if_neg modify]
    exact ⟨_, _, rfl, .ignored read write⟩

/-! ### The table stays in order -/

theorem imageAt_update {j : Fin MAX_FILE_COUNT} {other : FileDesc} {name' : List UInt8} :
    ImageAt { n with fileImages := Function.update n.fileImages i (some image') } name' j other ↔
      if j = i then other = image' ∧ cstr image'.filename = .ok name' else ImageAt n name' j other := by
  constructor
  · intro ⟨entry, string⟩
    dsimp only at entry
    split
    case isTrue here =>
      rw [here, Function.update_self] at entry
      obtain rfl := Option.some.inj entry
      exact ⟨rfl, string⟩
    case isFalse away =>
      rw [Function.update_of_ne away] at entry
      exact ⟨entry, string⟩
  · split
    case isTrue here =>
      intro ⟨same, string⟩
      subst here same
      exact ⟨Function.update_self .., string⟩
    case isFalse away =>
      intro there
      exact ⟨(Function.update_of_ne away ..).trans there.entry, there.name⟩

theorem Place.only (table : TableOk n) (place : Place n r name i image) {j : Fin MAX_FILE_COUNT} {other : FileDesc}
    (there : ImageAt n name j other) : j = i := by
  cases place with
  | old here => exact table.distinct j i other image name there here
  | new _ absent _ _ _ _ => exact absurd there (absent j other)

theorem Place.nodes (table : TableOk n) (place : Place n r name i image) (k : Nat) : 0 ≤ (image.entry k).dnId := by
  cases place with
  | old there => exact table.nodes i image there.entry k
  | new _ _ _ _ _ zeros =>
    rw [zeros k]
    exact Int.le_refl 0

theorem ends_of_cstr {k : Nat} {mem : Bytes k} (string : cstr mem = .ok name) : 0 ∈ mem.toList := by
  unfold cstr at string
  split at string
  case isTrue ends => exact ends
  case isFalse => cases string

theorem TableOk.stored (table : TableOk n) (place : Place n r name i image) (extended : Extended n name image image') :
    TableOk { n with fileImages := Function.update n.fileImages i (some image') } := by
  have entry_cases : ∀ j other, Function.update n.fileImages i (some image') j = some other →
      j = i ∧ other = image' ∨ j ≠ i ∧ n.fileImages j = some other := by
    intro j other entry
    by_cases here : j = i
    · rw [here, Function.update_self] at entry
      exact .inl ⟨here, (Option.some.inj entry).symm⟩
    · rw [Function.update_of_ne here] at entry
      exact .inr ⟨here, entry⟩
  constructor
  case named =>
    intro j other entry
    rcases entry_cases j other entry with ⟨-, rfl⟩ | ⟨-, kept⟩
    · exact ends_of_cstr extended.filename
    · exact table.named j other kept
  case distinct =>
    intro j k other other' name' there there'
    rw [imageAt_update] at there there'
    split at there
    case isTrue here =>
      split at there'
      case isTrue here' => exact here.trans here'.symm
      case isFalse away =>
        have same : name' = name := Except.ok.inj (there.2.symm.trans extended.filename)
        exact absurd (place.only table (same ▸ there')) away
    case isFalse away =>
      split at there'
      case isTrue here' =>
        have same : name' = name := Except.ok.inj (there'.2.symm.trans extended.filename)
        exact absurd (place.only table (same ▸ there)) away
      case isFalse => exact table.distinct j k other other' name' there there'
  case filled =>
    obtain ⟨count, filled⟩ := table.filled
    cases place with
    | old there =>
      refine ⟨count, ?_⟩
      intro j
      rw [← filled j]
      dsimp only
      by_cases here : j = i
      · rw [here, Function.update_self, there.entry]
        rfl
      · rw [Function.update_of_ne here]
    | new _ _ empty before _ _ =>
      have last : i.val = count := by
        have behind : ¬ i.val < count := by
          rw [← filled i, empty]
          exact Bool.false_ne_true
        by_contra other
        have inside : count < MAX_FILE_COUNT := by omega
        have taken := before ⟨count, inside⟩ (show count < i.val by omega)
        exact absurd ((filled ⟨count, inside⟩).mp taken) (Nat.lt_irrefl count)
      refine ⟨count + 1, ?_⟩
      intro j
      dsimp only
      by_cases here : j = i
      · rw [here, Function.update_self]
        exact iff_of_true rfl (by omega)
      · have apart : j.val ≠ i.val := fun same => here (Fin.ext same)
        rw [Function.update_of_ne here, filled j]
        omega
  case blocknum =>
    intro j other entry
    rcases entry_cases j other entry with ⟨-, rfl⟩ | ⟨-, kept⟩
    · exact extended.blocknum
    · exact table.blocknum j other kept
  case nodes =>
    intro j other entry k
    rcases entry_cases j other entry with ⟨-, rfl⟩ | ⟨-, kept⟩
    · rcases extended.blocks k with ⟨same, -⟩ | ⟨fileBlock, placed⟩
      · rw [same]
        exact place.nodes table k
      · obtain ⟨index, _, _, id, _⟩ := placed.node
        rw [id]
        omega
    · exact table.nodes j other kept k

theorem TableOk.handled (table : TableOk n) (handled : Handled n r name reply n') : TableOk n' := by
  cases handled with
  | stored i image image' _ place extended _ => exact table.stored place extended
  | _ => exact table

theorem TableOk.initial : TableOk .initial := by
  constructor
  case named =>
    intro i image entry
    cases entry
  case distinct =>
    intro i j image image' name there
    cases there.entry
  case filled => exact ⟨0, fun i => iff_of_false Bool.false_ne_true (Nat.not_lt_zero _)⟩
  case blocknum =>
    intro i image entry
    cases entry
  case nodes =>
    intro i image entry
    cases entry

theorem TableOk.congr (table : TableOk n) (same : n'.fileImages = n.fileImages) : TableOk n' := by
  obtain ⟨named, distinct, filled, blocknum, nodes⟩ := table
  constructor
  case named => rw [Named, same]; exact named
  case distinct =>
    intro i j image image' name there there'
    exact distinct i j image image' name ⟨same ▸ there.entry, there.name⟩ ⟨same ▸ there'.entry, there'.name⟩
  case filled => rw [same]; exact filled
  case blocknum => rw [same]; exact blocknum
  case nodes => rw [same]; exact nodes

end StorageStack.Dfs
