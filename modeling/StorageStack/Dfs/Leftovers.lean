import StorageStack.Dfs.FileTable
import StorageStack.Dfs.PushAgain

/-!
# What uninitialised bytes reach

The local `file_block` of a write request is never cleared, and a reply holds all of it. So two runs that differ in what
that local holds send the same replies only if no write request places a block.
-/

namespace StorageStack.Dfs
open Lib CString

/-- The same event, whatever the local holds. -/
inductive Event.Alike : Event → Event → Prop
  | heartbeat (status : DatanodeStatus) (ip : IpString) : Alike (.heartbeat status ip) (.heartbeat status ip)
  | request (r : ClientReq) (fileBlock fileBlock' : Int → BlockDesc) : Alike (.request r fileBlock) (.request r fileBlock')

/-- The replies that are sent as long as the namenode runs. -/
def sent : List Event → Namenode → List (Option Reply)
  | [], _ => []
  | e :: es, n =>
    match e.run n with
    | .ok (reply, n') => reply :: sent es n'
    | .error _ => []

/-- The namenode after an event. -/
def Event.next (e : Event) (n : Namenode) : Outcome Namenode := do .ok (← e.run n).2

/-- From this state on all replies are the same, whatever the locals hold. -/
def RevealsNothing (events : List Event) (n : Namenode) : Prop :=
  ∀ events', List.Forall₂ Event.Alike events events' → sent events' n = sent events n

/-- A write request for no block, or for a new name while the table is full. -/
def Event.PlacesNothing : Event → Namenode → Prop
  | heartbeat _ _, _ => True
  | request r _, n => r.reqType = 1 → blocksFor r.fileSize = 0 ∨
      (∀ name, cstr r.fileName = .ok name → ∀ i image, ¬ ImageAt n name i image) ∧ ∀ i, (n.fileImages i).isSome

variable {n n' : Namenode} {r : ClientReq} {name : List UInt8} {fileBlock fileBlock' : Int → BlockDesc} {image : FileDesc}
  {e e' : Event} {es es' : List Event} {h : History} {reply : Option Reply}

theorem Event.Alike.refl : ∀ e : Event, e.Alike e
  | .heartbeat status ip => .heartbeat status ip
  | .request r fileBlock => .request r fileBlock fileBlock

theorem alike_refl (es : List Event) : List.Forall₂ Event.Alike es es := List.forall₂_same.mpr fun e _ => .refl e

theorem Event.Alike.fine (alike : e.Alike e') (fine : e.Fine n) : e'.Fine n := by
  cases alike with
  | heartbeat => exact fine
  | request => exact fine

theorem Event.next_ok (run : e.run n = .ok (reply, n')) : e.next n = .ok n' := by
  rw [Event.next, run]
  rfl

theorem sent_cons (run : e.run n = .ok (reply, n')) : sent (e :: es) n = reply :: sent es n' := by
  rw [sent, run]

/-! ### Requests that place nothing -/

theorem getFileReceivers_idle (table : TableOk n) (fine : FineRequest n r name)
    (idle : blocksFor r.fileSize = 0 ∨ (∀ i image, ¬ ImageAt n name i image) ∧ ∀ i, (n.fileImages i).isSome) :
    getFileReceivers n r fileBlock' = getFileReceivers n r fileBlock := by
  rw [getFileReceivers, getFileReceivers, fine.string, ok_bind, ok_bind]
  rcases idle with none | ⟨absent, full⟩
  · have count := (blockCount_blocksFor fine.size (by omega)).1
    rw [count, none]
    rfl
  · rw [imageFor_refused table (cstr_nonzero fine.string) absent full]
    rfl

theorem Event.PlacesNothing.run_eq (idle : e.PlacesNothing n) (table : TableOk n) (fine : e.Fine n) (alike : e.Alike e') :
    e'.run n = e.run n := by
  cases alike with
  | heartbeat => rfl
  | request r fileBlock fileBlock' =>
    obtain ⟨-, name, request⟩ := fine
    rw [Event.run, Event.run]
    by_cases write : r.reqType = 1
    · rw [answer_write n write, answer_write n write]
      refine getFileReceivers_idle table request ?_
      exact (idle write).imp id fun both => ⟨both.1 name request.string, both.2⟩
    · rw [answer, answer, if_neg write, if_neg write]

/-! ### Requests that place a block -/

/-- The contents of a new block are what the local held. -/
theorem getFileReceivers_reveals (table : TableOk n) (registered : Registered n) (fine : FineRequest n r name)
    (kind : r.reqType = 1) (places : blocksFor r.fileSize ≠ 0)
    (taken : (∃ i image, ImageAt n name i image) ∨ ∃ i, n.fileImages i = none) : ∃ k : Nat, ∀ fileBlock, ∃ image n',
      getFileReceivers n r fileBlock = .ok (some (.file image), n') ∧ (image.entry k).content = (fileBlock k).content := by
  obtain ⟨node, visits⟩ := exists_visits registered 1 0
  have nonneg : 0 ≤ blocksFor r.fileSize := Int.ediv_nonneg (Int.add_nonneg fine.size (by decide)) (by decide)
  by_cases known : ∃ i image, ImageAt n name i image
  · obtain ⟨i, image, there⟩ := known
    have room : image.blocknum + blocksFor r.fileSize ≤ 100 := (fine.old i image there).1 kind
    have low := (table.blocknum i image there.entry).1
    refine ⟨image.blocknum.toNat, fun fileBlock => ?_⟩
    obtain ⟨image', -, -, run, -, placed⟩ := getFileReceivers_known table there fine.string fine.size room visits fileBlock
    exact ⟨image', _, run, (placed image.blocknum.toNat (by omega) (by omega)).content⟩
  · have absent : ∀ i image, ¬ ImageAt n name i image := fun i image there => known ⟨i, image, there⟩
    have free := taken.resolve_left known
    have few : blocksFor r.fileSize ≤ 100 := fine.new absent free kind
    obtain ⟨blocks, eq⟩ := Int.eq_ofNat_of_zero_le nonneg
    have first : FirstWrite n r name := ⟨table.named, fun i image entry same =>
      absent i image ((imageAt_iff table.named).mpr ⟨entry, same⟩), free, kind, fine.string⟩
    refine ⟨0, fun fileBlock => ?_⟩
    obtain ⟨place, image, -, run, -, -, -, placed⟩ := first.run
      ((blockCount_blocksFor fine.size few).1.trans eq) (show blocks ≤ 100 by omega) visits fileBlock
    exact ⟨image, _, run, (placed 0 (by omega)).content⟩

/-- Two locals that differ in the contents of every block. -/
def filledWith (x : UInt8) (_ : Int) : BlockDesc := { BlockDesc.zero with content := ⟨fun _ => x⟩ }

theorem filledWith_content {x y : UInt8} {i : Int} (same : (filledWith x i).content = (filledWith y i).content) : x = y :=
  congrFun (congrArg Bytes.byte same) ⟨0, by decide⟩

theorem RevealsNothing.placesNothing (reveals : RevealsNothing (e :: es) n) (table : TableOk n)
    (registration : Registration h n) (fine : e.Fine n) : e.PlacesNothing n := by
  cases e with
  | heartbeat => trivial
  | request r fileBlock =>
    obtain ⟨served, name, request⟩ := fine
    intro write
    by_contra places
    rw [not_or, not_and_or] at places
    obtain ⟨some, rest⟩ := places
    have taken : (∃ i image, ImageAt n name i image) ∨ ∃ i, n.fileImages i = none := by
      rcases rest with known | free
      · left
        by_contra absent
        refine known fun name' string i image there => absent ?_
        obtain rfl := Except.ok.inj (request.string.symm.trans string)
        exact ⟨i, image, there⟩
      · right
        by_contra full
        exact free fun i => Option.isSome_iff_ne_none.mpr fun empty => full ⟨i, empty⟩
    obtain ⟨k, runs⟩ := getFileReceivers_reveals table (registration.safeMode.mp served) request write some taken
    -- Whatever the local holds, the reply is the one of the run at hand.
    have first : ∀ x, ∃ image n', Event.run n (.request r (filledWith x)) = .ok (Option.some (.file image), n') ∧
        (image.entry k).content = (filledWith x k).content ∧ (sent (.request r fileBlock :: es) n).head? =
          Option.some (Option.some (.file image)) := fun x => by
      obtain ⟨image, n', run, content⟩ := runs (filledWith x)
      have whole : Event.run n (.request r (filledWith x)) = .ok (Option.some (.file image), n') :=
        (answer_write n write _).trans run
      refine ⟨image, n', whole, content, ?_⟩
      rw [← reveals (.request r (filledWith x) :: es) (.cons (.request r _ _) (alike_refl es)), sent_cons whole]
      rfl
    obtain ⟨image, -, -, content, head⟩ := first 0
    obtain ⟨image', -, -, content', head'⟩ := first 1
    obtain rfl : image = image' := Reply.file.inj (Option.some.inj (Option.some.inj (head.symm.trans head')))
    exact absurd (filledWith_content (content.symm.trans content')) (by decide)

theorem RevealsNothing.tail (reveals : RevealsNothing (e :: es) n) (run : e.run n = .ok (reply, n')) : RevealsNothing es n' := by
  intro es' alike
  have both := reveals (e :: es') (.cons (.refl e) alike)
  rw [sent_cons run, sent_cons run] at both
  exact (List.cons.inj both).2

theorem RevealsNothing.cons (run : e.run n = .ok (reply, n')) (same : ∀ e', e.Alike e' → e'.run n = e.run n)
    (rest : RevealsNothing es n') : RevealsNothing (e :: es) n := by
  intro events' alike
  cases alike with
  | cons first alike =>
    rw [sent_cons run, sent_cons ((same _ first).trans run), rest _ alike]

/-- From every state that is reached a run reveals what its locals held unless no write request places a block. -/
theorem Reaches.reveals_iff (reached : Reaches h n) (fine : Meets Event.next (fun e n => e.Fine n) es n) :
    RevealsNothing es n ↔ Meets Event.next (fun e n => e.PlacesNothing n) es n := by
  induction es generalizing h n with
  | nil =>
    refine iff_of_true (fun events' alike => ?_) trivial
    cases alike
    rfl
  | cons e es ih =>
    obtain ⟨table, registration⟩ := reached.holds
    obtain ⟨reply, n', run, -⟩ := reached.progress fine.1
    have next := Event.next_ok run
    have later := ih (reached.step fine.1 run) (fine.2 n' next)
    constructor
    · intro reveals
      refine ⟨reveals.placesNothing table registration fine.1, fun n'' next' => ?_⟩
      obtain rfl := Except.ok.inj (next.symm.trans next')
      exact later.mp (reveals.tail run)
    · intro ⟨idle, rest⟩
      exact .cons run (fun e' alike => idle.run_eq table fine.1 alike) (later.mpr (rest n' next))

/-- A run reveals nothing exactly when none of its write requests places a block. -/
theorem replies_reveal_nothing_iff (events : List Event) (fine : Meets Event.next (fun e n => e.Fine n) events .initial) :
    RevealsNothing events .initial ↔ Meets Event.next (fun e n => e.PlacesNothing n) events .initial :=
  Reaches.initial.reveals_iff fine

/-! ### One datanode and one write request -/

def firstPush (size : Int) : List Event := [.heartbeat ⟨1, 0⟩ loopback, .request ⟨letterName, size, 1⟩ fun _ => .zero]

theorem firstPush_meets {ok : Event → Namenode → Prop} {size : Int} (first : ok (.heartbeat ⟨1, 0⟩ loopback) .initial)
    (second : ok (.request ⟨letterName, size, 1⟩ fun _ => .zero) oneRegistered) :
    Meets Event.next ok (firstPush size) .initial := by
  refine ⟨first, fun n' next => ?_⟩
  obtain rfl : oneRegistered = n' := Except.ok.inj next
  exact ⟨second, fun _ _ => trivial⟩

theorem firstPush_fine {size : Int} (low : 0 ≤ size) (few : blocksFor size ≤ MAX_FILE_BLK_COUNT) :
    Meets Event.next (fun e n => e.Fine n) (firstPush size) .initial :=
  firstPush_meets (Int.le_refl 1)
    ⟨rfl, [102], low, cstr_letterName, fun i image there => (by cases there.entry), fun _ _ _ => few⟩

theorem empty_push_reveals_nothing : RevealsNothing (firstPush 0) .initial :=
  (replies_reveal_nothing_iff (firstPush 0) (firstPush_fine (by decide) (by decide))).mpr
    (firstPush_meets trivial fun _ => .inl (by decide))

/-- A file of one byte. -/
theorem push_reveals_local : ¬ ∀ events : List Event, Meets Event.next (fun e n => e.Fine n) events .initial →
    RevealsNothing events .initial := by
  intro claim
  have fine := @firstPush_fine 1 (by decide) (by decide)
  have idle := (Reaches.initial.reveals_iff fine).mp (claim (firstPush 1) fine)
  rcases (idle.2 oneRegistered rfl).1 rfl with none | ⟨-, full⟩
  · exact absurd none (by decide)
  · exact Bool.false_ne_true (full 0)

end StorageStack.Dfs
