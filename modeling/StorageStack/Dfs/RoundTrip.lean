import StorageStack.Dfs.Transfer

/-!
# Pushing a file and pulling it back

Whatever the locals hold, a file comes back when its length is a multiple of the block size and every block
has its only zero at its end, and no other file does.
-/

namespace StorageStack.Dfs
open Lib CString

/-- What the locals hold that are used before all of them is stored to. -/
structure Locals where
  fileBlock : Int → BlockDesc
  pushRequest : ClientReq
  pullRequest : ClientReq
  buffers : Nat → Bytes DFS_BLOCK_SIZE
  buffer : Bytes DFS_BLOCK_SIZE

/-- The file that is pulled after every block was handled is the file that was pushed. -/
def RoundTrips (n : Namenode) (hosts : Hosts) (name : CString) (file : List UInt8) : Prop :=
  ∀ locals : Locals, ∃ messages n', pushFile n locals.fileBlock locals.pushRequest name file = .ok (messages, n') ∧
    ∀ order, order.Perm messages → ∃ hosts', runAll (deliver locals.buffer) order hosts = .ok hosts' ∧
      pullFile n' hosts' locals.buffers locals.fileBlock locals.pullRequest name = .ok file

/-- The only zero of every block is its last byte. -/
def ZeroEnded (file : List UInt8) : Prop := ∀ i < file.length, file[i]? = some 0 ↔ i % DFS_BLOCK_SIZE = DFS_BLOCK_SIZE - 1

variable {n : Namenode} {name : CString} {fileBlock : Int → BlockDesc} {image : FileDesc} {file : List UInt8} {hosts : Hosts}

/-! ### One block -/

theorem scan_append_iff {s : List UInt8} (whole : s.length = 1024) :
    scan s ++ [0] = s ↔ ∀ i < 1024, s[i]? = some 0 ↔ i = 1023 := by
  constructor
  · intro same i inside
    have length : (scan s).length = 1023 := by
      have total := congrArg List.length same
      rw [List.length_append, List.length_singleton, whole] at total
      omega
    by_cases last : i = 1023
    · subst last
      rw [← same, List.getElem?_append_right (by omega), length]
      simp
    · have front : i < (scan s).length := by omega
      have byte : s[i]? = some ((scan s)[i]) := by rw [getElem?_scan_of_lt front, List.getElem?_eq_getElem front]
      rw [byte]
      constructor
      · intro zero
        exact absurd (Option.some.inj zero) (scan_nonzero (List.getElem_mem front))
      · intro here
        exact absurd here last
  · intro zeros
    have last : s[1023]? = some 0 := (zeros 1023 (by omega)).mpr rfl
    have ends : 0 ∈ s := List.mem_of_getElem? last
    have short := length_scan_lt ends
    have length : (scan s).length = 1023 := (zeros _ (by omega)).mp (getElem?_scan ends)
    apply List.ext_getElem?
    intro i
    rcases Nat.lt_trichotomy i 1023 with low | here | high
    · rw [List.getElem?_append_left (by omega)]
      exact (getElem?_scan_of_lt (by omega)).symm
    · subst here
      rw [last, List.getElem?_append_right (by omega), length]
      rfl
    · rw [List.getElem?_eq_none (by rw [List.length_append, List.length_singleton]; omega), List.getElem?_eq_none (by omega)]

/-- A block whose bytes do not depend on what was there before has nothing behind its first zero. -/
theorem scan_append_of_pulled {s : List UInt8} (whole : s.length = 1024) (ends : 0 ∈ s) (garbage : UInt8) (nonzero : garbage ≠ 0)
    (ones : ((⟨fun _ => garbage⟩ : Bytes 1024).patch 0 (scan s ++ [0])).toList = s)
    (zeros : ((Bytes.zero : Bytes 1024).patch 0 (scan s ++ [0])).toList = s) : scan s ++ [0] = s := by
  have short := length_scan_lt ends
  have total : (scan s ++ [0]).length = (scan s).length + 1 := by rw [List.length_append, List.length_singleton]
  suffices length : (scan s).length + 1 = 1024 by
    conv_rhs => rw [← zeros]
    exact (Bytes.toList_patch _ (by omega)).symm
  by_contra less
  have behind : ∀ b : Bytes 1024, (b.patch 0 (scan s ++ [0])).toList[(scan s).length + 1]? = some (b.get ((scan s).length + 1)) :=
    fun b => by rw [Bytes.getElem?_toList _ (by omega), Bytes.get_patch_of_outside _ (by omega)]
  have one := behind ⟨fun _ => garbage⟩
  have zero := behind .zero
  rw [ones, Bytes.get, dif_pos (by omega)] at one
  rw [zeros, Bytes.get_zero, one] at zero
  exact nonzero (Option.some.inj zero)

theorem zeroEnded_iff {blocks : Nat} (length : file.length = 1024 * blocks) :
    ZeroEnded file ↔ ∀ k < blocks, scan (piece file 1024 k) ++ [0] = piece file 1024 k := by
  have size : ∀ k < blocks, (piece file 1024 k).length = 1024 := fun k h => length_piece (by omega)
  constructor
  · intro ended k h
    rw [scan_append_iff (size k h)]
    intro i inside
    rw [getElem?_piece file inside, ended (1024 * k + i) (by omega)]
    show (1024 * k + i) % 1024 = 1023 ↔ _
    omega
  · intro each i inside
    have block := (scan_append_iff (size (i / 1024) (by omega))).mp (each (i / 1024) (by omega)) (i % 1024)
      (Nat.mod_lt _ (by omega))
    rw [getElem?_piece file (Nat.mod_lt _ (by omega)), Nat.div_add_mod] at block
    exact block

/-! ### Both ways -/

/-- What a first push is promised: datanodes to place blocks on, names that end, and a new name of a file
that fits. -/
structure FirstPush (n : Namenode) (name : CString) (file : List UInt8) : Prop where
  registered : Registered n
  named : Named n
  new : ∀ i image, n.fileImages i = some image → scan image.filename.toList ≠ name.bytes
  small : file.length ≤ 102400

theorem pushFile_ok {i : Fin MAX_FILE_COUNT} (first : FirstPush n name file) (fits : name.bytes.length ≤ 255)
    (free : n.fileImages i = none)
    (fileBlock : Int → BlockDesc) (request : ClientReq) :
    ∃ image n', pushFile n fileBlock request name file = .ok ((List.range (blocksOf file)).map (blockMessage image file), n') ∧
      Stored n n' name.bytes fileBlock (blocksOf file) image := by
  have string := cstr_strcpy request.fileName name.nonzero (by omega)
  obtain ⟨image, n', answered, stored⟩ :=
    @answer_write_first n name.bytes fileBlock file _ i first.named first.registered first.new free string first.small
  have few := (blockCount_eq first.small).2
  have sent := @pushBlocks_ok n name.bytes fileBlock image file (blocksOf file) 0 (by omega) fun k _ high =>
    stored.placed k (by omega)
  refine ⟨image, n', ?_, stored⟩
  rw [pushFile, strcpy_ok _ (by omega), ok_bind, answered, ok_bind]
  dsimp only [queryResult, Option.bind_some, receive]
  rw [ok_bind, stored.blocknum, Int.toNat_natCast]
  rw [Nat.mul_zero, List.drop_zero] at sent
  rw [sent, ok_bind, List.range_eq_range']

/-- A push that is answered had room for the name and for the file. -/
theorem pushFile_room {request : ClientReq} {r : List Message × Namenode} (first : FirstPush n name file)
    (run : pushFile n fileBlock request name file = .ok r) : name.bytes.length ≤ 255 ∧ ∃ i, n.fileImages i = none := by
  obtain ⟨fileName, copied, run⟩ := bind_ok run
  have fits : name.bytes.length ≤ 255 := by
    by_contra long
    rw [strcpy, if_neg (by omega)] at copied
    cases copied
  refine ⟨fits, ?_⟩
  by_contra full
  have place : (List.finRange MAX_FILE_COUNT).find? (fun i => (n.fileImages i).isNone) = none := by
    rw [List.find?_eq_none]
    intro i _ free
    exact full ⟨i, Option.isNone_iff_eq_none.mp free⟩
  rw [strcpy_ok _ (by omega)] at copied
  obtain rfl := Except.ok.inj copied
  obtain ⟨⟨reply, n'⟩, answered, run⟩ := bind_ok run
  rw [answer, if_neg (show ¬ (1 : Int) = 0 by decide), if_pos rfl, getFileReceivers, cstr_strcpy _ name.nonzero (by omega),
    ok_bind,
    imageFor, findImage_absent first.named name.nonzero first.new, ok_bind] at answered
  dsimp only at answered
  rw [place] at answered
  cases answered
  cases run

theorem pullFile_eq {n' : Namenode} {blocks : Nat} (stored : Stored n n' name.bytes fileBlock blocks image)
    (fits : name.bytes.length ≤ 255) (buffers : Nat → Bytes DFS_BLOCK_SIZE) (fileBlock' : Int → BlockDesc) (request : ClientReq) :
    pullFile n' hosts buffers fileBlock' request name =
      pullBlocks hosts buffers image blocks 0 >>= fun contents => .ok (contents.flatMap Bytes.toList) := by
  obtain ⟨i, found⟩ := stored.found
  rw [pullFile, strcpy_ok _ (by omega), ok_bind, answer, if_pos rfl, getFileLocation, cstr_strcpy _ name.nonzero (by omega),
    ok_bind,
    found, ok_bind]
  dsimp only
  rw [ok_bind]
  dsimp only [queryResult, Option.bind_some, receive]
  rw [ok_bind, stored.blocknum, Int.toNat_natCast]

theorem pullFile_ok {n' : Namenode} {blocks : Nat} (stored : Stored n n' name.bytes fileBlock blocks image) (few : blocks ≤ 100)
    (fits : name.bytes.length ≤ 255) (has : ∀ k < blocks, HasBlock hosts image file name.bytes k)
    (ends : ∀ k < blocks, 0 ∈ (sentContent image file k).toList) (buffers : Nat → Bytes DFS_BLOCK_SIZE)
    (fileBlock' : Int → BlockDesc) (request : ClientReq) :
    pullFile n' hosts buffers fileBlock' request name =
      .ok ((List.range blocks).flatMap fun k => (pulled image file k).toList) := by
  have run := @pullBlocks_ok n name.bytes fileBlock image file hosts blocks 0 buffers (by omega) fits
    (fun k _ h => stored.placed k (by omega)) (fun k _ h => has k (by omega)) fun k _ h => ends k (by omega)
  rw [pullFile_eq stored fits, run, ok_bind, List.flatMap_map, List.range_eq_range']

theorem sentContent_whole {k : Nat} (whole : 1024 * (k + 1) ≤ file.length) :
    (sentContent image file k).toList = piece file 1024 k :=
  Bytes.toList_patch _ (length_piece whole)

theorem roundTrips_of (first : FirstPush n name file) (fits : name.bytes.length ≤ 255) {i : Fin MAX_FILE_COUNT}
    (free : n.fileImages i = none) (whole : file.length % 1024 = 0) (ended : ZeroEnded file) : RoundTrips n hosts name file := by
  have few := (blockCount_eq first.small).2
  have length : file.length = 1024 * blocksOf file := by
    unfold blocksOf
    omega
  have each := (zeroEnded_iff length).mp ended
  intro locals
  obtain ⟨image, n', pushed, stored⟩ := pushFile_ok first fits free locals.fileBlock locals.pushRequest
  refine ⟨_, n', pushed, fun order perm => ?_⟩
  obtain ⟨hosts', run, has⟩ := deliverAll_ok few stored.placed locals.buffer hosts perm
  have sent : ∀ k < blocksOf file,
    (sentContent image file k).toList = piece file 1024 k := fun k h => sentContent_whole (by omega)
  have ends : ∀ k < blocksOf file, 0 ∈ (sentContent image file k).toList := by
    intro k h
    rw [sent k h, ← each k h]
    exact List.mem_append_right _ (List.mem_cons_self ..)
  have back : ∀ k < blocksOf file, (pulled image file k).toList = piece file 1024 k := by
    intro k h
    rw [pulled, sent k h, each k h]
    exact Bytes.toList_patch _ (length_piece (by omega))
  refine ⟨hosts', run, ?_⟩
  rw [pullFile_ok stored few fits has ends]
  have same : (List.range (blocksOf file)).flatMap (fun k => (pulled image file k).toList) =
      (List.range (blocksOf file)).flatMap (piece file 1024) :=
    List.flatMap_congr fun k member => back k (List.mem_range.mp member)
  rw [same, flatMap_piece, List.take_of_length_le (by omega)]

theorem RoundTrips.round (trip : RoundTrips n hosts name file) (first : FirstPush n name file) (fits : name.bytes.length ≤ 255)
    {i : Fin MAX_FILE_COUNT} (free : n.fileImages i = none) (garbage : UInt8) :
    ∃ image : FileDesc, (∀ k < blocksOf file, 0 ∈ (sentContent image file k).toList) ∧
      (∀ k < blocksOf file, (image.entry k).content = ⟨fun _ => garbage⟩) ∧
      (List.range (blocksOf file)).flatMap (fun k => (pulled image file k).toList) = file := by
  have few := (blockCount_eq first.small).2
  let filled : BlockDesc := { BlockDesc.zero with content := ⟨fun _ => garbage⟩ }
  obtain ⟨messages, n', pushed, rest⟩ := trip ⟨fun _ => filled, ⟨.zero, 0, 0⟩, ⟨.zero, 0, 0⟩, fun _ => .zero, .zero⟩
  obtain ⟨image, n₁, pushed', stored⟩ := pushFile_ok first fits free (fun _ => filled) ⟨.zero, 0, 0⟩
  obtain ⟨rfl, rfl⟩ := Prod.mk.inj (Except.ok.inj (pushed'.symm.trans pushed))
  obtain ⟨hosts', run, whole⟩ := rest _ (List.Perm.refl _)
  obtain ⟨hosts₁, run', has⟩ := deliverAll_ok few stored.placed Bytes.zero hosts (List.Perm.refl _)
  obtain rfl := Except.ok.inj (run'.symm.trans run)
  have got := whole
  rw [pullFile_eq stored fits] at got
  obtain ⟨contents, blocks, -⟩ := bind_ok got
  have ends := @pullBlocks_ends n name.bytes _ image file hosts₁ (blocksOf file) 0 _ _ (by omega) fits
    (fun k _ h => stored.placed k (by omega)) (fun k _ h => has k (by omega)) blocks
  refine ⟨image, fun k h => ends k (Nat.zero_le k) (by omega), fun k h => (stored.placed k h).content, ?_⟩
  rw [pullFile_ok stored few fits has fun k h => ends k (Nat.zero_le k) (by omega)] at whole
  exact Except.ok.inj whole

theorem RoundTrips.room (trip : RoundTrips n hosts name file) (first : FirstPush n name file) :
    name.bytes.length ≤ 255 ∧ ∃ i, n.fileImages i = none := by
  obtain ⟨messages, n', pushed, -⟩ := trip ⟨fun _ => .zero, ⟨.zero, 0, 0⟩, ⟨.zero, 0, 0⟩, fun _ => .zero, .zero⟩
  exact pushFile_room first pushed

theorem RoundTrips.length (trip : RoundTrips n hosts name file) (first : FirstPush n name file) :
    file.length = 1024 * blocksOf file := by
  obtain ⟨fits, i, free⟩ := trip.room first
  obtain ⟨image, -, -, whole⟩ := trip.round first fits free 0
  have total := congrArg List.length whole
  rw [length_flatMap_range fun k _ => Bytes.length_toList _] at total
  exact total.symm

/-- A first push can be pulled back if and only if there is room for its name and for its blocks, its length
is a multiple of the block size, and the only zero of every block is its last byte. -/
theorem roundTrips_iff (first : FirstPush n name file) : RoundTrips n hosts name file ↔
    name.bytes.length ≤ 255 ∧ (∃ i, n.fileImages i = none) ∧ file.length % DFS_BLOCK_SIZE = 0 ∧ ZeroEnded file := by
  constructor
  · intro trip
    have length := trip.length first
    obtain ⟨fits, i, free⟩ := trip.room first
    obtain ⟨image₁, ends, filled₁, whole₁⟩ := trip.round first fits free 1
    obtain ⟨image₀, -, filled₀, whole₀⟩ := trip.round first fits free 0
    have sent : ∀ (image : FileDesc), ∀ k < blocksOf file, (sentContent image file k).toList = piece file 1024 k :=
      fun image k h => sentContent_whole (by omega)
    -- Both fillings give the same blocks, so that no block shows what it was filled with.
    have pieces : (List.range (blocksOf file)).flatMap (piece file 1024) = file := by
      rw [flatMap_piece, List.take_of_length_le (by omega)]
    have block : ∀ image : FileDesc, (List.range (blocksOf file)).flatMap (fun k => (pulled image file k).toList) = file →
        ∀ k < blocksOf file, (pulled image file k).toList = piece file 1024 k := fun image whole =>
      flatMap_range_inj (fun k _ => Bytes.length_toList _) (fun k h => length_piece (by omega)) (whole.trans pieces.symm)
    refine ⟨fits, ⟨i, free⟩, ?_, (zeroEnded_iff length).mpr fun k h => ?_⟩
    · show file.length % 1024 = 0
      omega
    · have one := block image₁ whole₁ k h
      have zero := block image₀ whole₀ k h
      have zeroEnd := ends k h
      rw [pulled, sent image₁ k h, filled₁ k h] at one
      rw [pulled, sent image₀ k h, filled₀ k h] at zero
      rw [sent image₁ k h] at zeroEnd
      exact scan_append_of_pulled (length_piece (by omega)) zeroEnd 1 (by decide) one zero
  · rintro ⟨fits, ⟨i, free⟩, whole, ended⟩
    exact roundTrips_of first fits free whole ended

/-! ### One datanode -/

def oneDatanode : Namenode := ⟨fun i => if i.val = 0 then some ⟨1, loopback, 50060⟩ else none, fun _ => none, 1, false⟩

def fileName : CString := ⟨[102], letter_nonzero⟩

theorem oneDatanode_first (small : file.length ≤ 102400) : FirstPush oneDatanode fileName file where
  registered := ⟨0, rfl⟩
  named := fun i image entry => by cases entry
  new := fun i image entry => by cases entry
  small := small

/-- One block whose only zero is its last byte comes back. -/
theorem oneBlock_round : FirstPush oneDatanode fileName (List.replicate 1023 1 ++ [0]) ∧
    RoundTrips oneDatanode emptyHosts fileName (List.replicate 1023 1 ++ [0]) := by
  have length : (List.replicate 1023 (1 : UInt8) ++ [0]).length = 1024 := by
    rw [List.length_append, List.length_replicate, List.length_singleton]
  have first := @oneDatanode_first (List.replicate 1023 1 ++ [0]) (by omega)
  have whole : (List.replicate 1023 (1 : UInt8) ++ [0]).length % DFS_BLOCK_SIZE = 0 := by
    rw [length]
    decide
  refine ⟨first, (roundTrips_iff first).mpr ⟨by decide, ⟨0, rfl⟩, whole, fun i inside => ?_⟩⟩
  rw [length] at inside
  show _ ↔ i % 1024 = 1023
  rw [Nat.mod_eq_of_lt inside, List.getElem?_append, List.length_replicate, List.getElem?_replicate]
  by_cases low : i < 1023
  · rw [if_pos low, if_pos low]
    exact ⟨fun zero => absurd (Option.some.inj zero) (by decide), fun last => by omega⟩
  · obtain rfl : i = 1023 := by omega
    decide

/-- A file of one byte does not come back. -/
theorem oneByte_lost : FirstPush oneDatanode fileName [1] ∧ fileName.bytes.length ≤ 255 ∧ oneDatanode.fileImages 0 = none ∧
    ¬ RoundTrips oneDatanode emptyHosts fileName [1] := by
  have first := @oneDatanode_first [1] (by decide)
  refine ⟨first, by decide, rfl, fun trip => ?_⟩
  have length := trip.length first
  exact absurd length (by decide)

end StorageStack.Dfs
