import StorageStack.Dfs.PushAgain

/-!
# The bound of a block list

Nothing compares a block index with the length of the array. A run of write and modify requests stays inside
as long as the blocks that a file has and those that a push adds fit together, and no longer.
-/

namespace StorageStack.Dfs
open Lib CString

variable {n n' : Namenode} {r : ClientReq} {name : List UInt8} {fileBlock : Int → BlockDesc} {image : FileDesc}
  {i : Fin MAX_FILE_COUNT} {reply : Option Reply}

/-- A write or modify request. `fileBlock` is what the local of that name holds in each round. -/
structure Ask where
  request : ClientReq
  fileBlock : Int → BlockDesc

def Ask.answered (q : Ask) (n : Namenode) : Outcome (Option Reply × Namenode) := answer n q.request q.fileBlock

def Ask.step (q : Ask) (n : Namenode) : Outcome Namenode := do .ok (← q.answered n).2

structure Ask.Proper (q : Ask) : Prop where
  kind : q.request.reqType = 1 ∨ q.request.reqType = 3
  low : 0 ≤ q.request.fileSize
  named : ∃ name, cstr q.request.fileName = .ok name

/-- The request stores inside the array, no entry has more blocks than the array afterwards, and a file that is too
large is refused. -/
def Ask.InBounds (q : Ask) (n : Namenode) : Prop :=
  ∃ reply n', q.answered n = .ok (reply, n') ∧
    (∀ i image, n'.fileImages i = some image → image.blocknum ≤ MAX_FILE_BLK_COUNT) ∧
    (MAX_FILE_BLK_COUNT < blocksFor q.request.fileSize → reply = none ∧ n' = n)

/-- The blocks that the file has and those of a write request fit into the array, as do those of a modify request. -/
def Ask.Fits (q : Ask) (n : Namenode) : Prop := ∃ name, FineRequest n q.request name

/-! ### Requests that are answered -/

theorem getFileReceivers_answers {found : Fin MAX_FILE_COUNT × FileDesc} (string : cstr r.fileName = .ok name)
    (entry : imageFor n r name = .ok (some found)) (run : getFileReceivers n r fileBlock = .ok (reply, n')) : reply ≠ none := by
  rw [getFileReceivers, string, ok_bind, entry, ok_bind] at run
  obtain ⟨image', -, run⟩ := bind_ok run
  obtain ⟨rfl, -⟩ := Prod.mk.inj (Except.ok.inj run)
  exact Option.some_ne_none _

theorem getFileUpdatePoint_answers (table : TableOk n) (there : ImageAt n name i image) (string : cstr r.fileName = .ok name)
    (run : getFileUpdatePoint n r = .ok (reply, n')) : reply ≠ none := by
  rw [getFileUpdatePoint, string, ok_bind, findImage_at table there, ok_bind] at run
  dsimp only at run
  split at run
  · obtain ⟨last, -, run⟩ := bind_ok run
    obtain ⟨index, -, run⟩ := bind_ok run
    obtain ⟨image', -, run⟩ := bind_ok run
    obtain ⟨rfl, -⟩ := Prod.mk.inj (Except.ok.inj run)
    exact Option.some_ne_none _
  · obtain ⟨rfl, -⟩ := Prod.mk.inj (Except.ok.inj run)
    exact Option.some_ne_none _

/-! ### One request -/

theorem Ask.Fits.inBounds {q : Ask} (fits : q.Fits n) (table : TableOk n) (registered : Registered n)
    (kind : q.request.reqType = 1 ∨ q.request.reqType = 3) :
    q.InBounds n ∧ ∀ n', q.step n = .ok n' → TableOk n' ∧ Registered n' := by
  obtain ⟨name, fine⟩ := fits
  obtain ⟨reply, n', run, handled⟩ := @answer_ok n q.request name q.fileBlock table registered fine
  have table' := table.handled handled
  refine ⟨⟨reply, n', run, fun i image entry => (table'.blocknum i image entry).2, fun large => ?_⟩, fun n'' next => ?_⟩
  · cases handled with
    | status other => omega
    | ignored => exact ⟨rfl, rfl⟩
    | absent => exact ⟨rfl, rfl⟩
    | full => exact ⟨rfl, rfl⟩
    | found i image other there =>
      have modify : q.request.reqType = 3 := by omega
      exact absurd ((fine.old i image there).2 modify) (not_le.mpr large)
    | stored i image image' _ place _ _ =>
      cases place with
      | old there =>
        have range := fine.old i image there
        have nonneg := (table.blocknum i image there.entry).1
        rcases kind with write | modify
        · have few := range.1 write
          omega
        · exact absurd (range.2 modify) (not_le.mpr large)
      | new write absent empty _ _ _ => exact absurd (fine.new absent ⟨i, empty⟩ write) (not_le.mpr large)
  · rw [Ask.step, Ask.answered, run] at next
    obtain rfl := Except.ok.inj next
    obtain ⟨index, here⟩ := registered
    exact ⟨table', index, handled.frame.1 ▸ here⟩

theorem Ask.InBounds.fits {q : Ask} (inside : q.InBounds n) (table : TableOk n) (proper : q.Proper) : q.Fits n := by
  obtain ⟨kind, low, name, string⟩ := proper
  obtain ⟨reply, n', run, -, refused⟩ := inside
  have small : reply ≠ none → blocksFor q.request.fileSize ≤ MAX_FILE_BLK_COUNT := fun answered => by
    by_contra large
    exact answered (refused (by omega)).1
  refine ⟨name, low, string, fun i image there => ⟨fun write => ?_, fun modify => ?_⟩, fun absent free write => ?_⟩
  · rw [Ask.answered, answer_write n write] at run
    have few := small (getFileReceivers_answers string (imageFor_at table there) run)
    exact getFileReceivers_room table there string low few run
  · rw [Ask.answered, answer, if_neg (by omega), if_neg (by omega), if_neg (by omega), if_pos modify] at run
    exact small (getFileUpdatePoint_answers table there string run)
  · rw [Ask.answered, answer_write n write] at run
    obtain ⟨found, entry, -⟩ := imageFor_new table string absent free
    exact small (getFileReceivers_answers string entry run)

/-- A run of requests stays in bounds exactly when each of them fits. -/
theorem block_lists_bounded_iff (table : TableOk n) (registered : Registered n) (asks : List Ask)
    (proper : ∀ q ∈ asks, q.Proper) :
    Meets Ask.step (fun q n => q.InBounds n) asks n ↔ Meets Ask.step (fun q n => q.Fits n) asks n := by
  refine meets_iff (fun n => TableOk n ∧ Registered n) (fun q member n inv => ?_) (fun q member n n' inv fits next => ?_)
    ⟨table, registered⟩
  · exact ⟨fun inside => inside.fits inv.1 (proper q member),
      fun fits => (fits.inBounds inv.1 inv.2 (proper q member).kind).1⟩
  · exact (fits.inBounds inv.1 inv.2 (proper q member).kind).2 n' next

/-! ### Two pushes -/

def push (size : Int) : Ask := ⟨⟨letterName, size, 1⟩, fun _ => .zero⟩

theorem push_proper {size : Int} (low : 0 ≤ size) : (push size).Proper := ⟨.inl rfl, low, [102], cstr_letterName⟩

theorem twoDatanodes_registered : Registered twoDatanodes := ⟨2, by decide⟩

theorem first_push_fits {size : Int} (low : 0 ≤ size) (few : blocksFor size ≤ MAX_FILE_BLK_COUNT) :
    (push size).Fits twoDatanodes :=
  ⟨[102], low, cstr_letterName, fun i image there => (by cases there.entry), fun _ _ _ => few⟩

/-- A file of 100 blocks. -/
theorem full_list_bounded : Meets Ask.step (fun q n => q.InBounds n) [push 102400] twoDatanodes :=
  (block_lists_bounded_iff twoDatanodes_table twoDatanodes_registered [push 102400] fun q member => by
    obtain rfl := List.mem_singleton.mp member
    exact push_proper (by decide)).mpr ⟨first_push_fits (by decide) (by decide), fun _ _ => trivial⟩

/-- Sixty blocks, pushed twice. -/
theorem second_push_overruns : ¬ ∀ (n : Namenode) (asks : List Ask), TableOk n → Registered n → (∀ q ∈ asks, q.Proper) →
    Meets Ask.step (fun q n => q.InBounds n) asks n := by
  intro claim
  have few : blocksFor 61440 ≤ MAX_FILE_BLK_COUNT := by decide
  have inside := claim twoDatanodes [push 61440, push 61440] twoDatanodes_table twoDatanodes_registered fun q member => by
    obtain rfl : q = push 61440 := by simpa using member
    exact push_proper (by decide)
  obtain ⟨image, n', run, -, blocknum, -⟩ := (twoDatanodes_first 61440).inTurn (n := twoDatanodes) rfl
    (registered_iff.mp twoDatanodes_registered) (by decide) few fun _ => .zero
  have first : (push 61440).answered twoDatanodes = .ok (some (.file image), n') := (answer_write _ rfl _).trans run
  obtain ⟨name, fine⟩ := first_push_fits (by decide : (0 : Int) ≤ 61440) few
  obtain ⟨reply, n'', run', handled⟩ := @answer_ok twoDatanodes _ name (push 61440).fileBlock twoDatanodes_table
    twoDatanodes_registered fine
  obtain ⟨rfl, rfl⟩ := Prod.mk.inj (Except.ok.inj (first.symm.trans run'))
  obtain ⟨i, there⟩ := handled.imageAt
  have later := (inside.2 n' (by rw [Ask.step, first]; rfl)).1
  obtain ⟨name', fine'⟩ := later.fits (twoDatanodes_table.handled handled) (push_proper (by decide))
  obtain rfl := Except.ok.inj (fine.string.symm.trans fine'.string)
  have range : image.blocknum + blocksFor 61440 ≤ 100 := (fine'.old i image there).1 rfl
  rw [blocknum] at range
  exact absurd range (by decide)

end StorageStack.Dfs
