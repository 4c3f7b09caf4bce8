import Mathlib.Data.Finset.Card
import Mathlib.Data.Fintype.Basic
import StorageStack.Dfs.Requests

/-!
# Registered datanodes

Entries of `dnlist` are set by heartbeats and never cleared. Requests are served only after a first one, so
that a search that goes round finds an entry, also when heartbeats come in between.
-/

namespace StorageStack.Dfs
open Lib CString

/-- The latest accepted heartbeat with the id of entry `i`. -/
def latest : History → Fin MAX_DATANODE_NUM → Option (DatanodeStatus × IpString)
  | [], _ => none
  | (.heartbeat status ip, _) :: h, i =>
    if status.datanodeId = i.val + 1 ∧ status.datanodeId < MAX_DATANODE_NUM then some (status, ip) else latest h i
  | (.request _ _, _) :: h, i => latest h i

def present (n : Namenode) : Finset (Fin MAX_DATANODE_NUM) := Finset.univ.filter fun i => (n.dnlist i).isSome

structure Registration (h : History) (n : Namenode) : Prop where
  dncnt : n.dncnt = (present n).card
  entries : ∀ i, n.dnlist i = (latest h i).map fun (status, ip) => ⟨i.val + 1, ip, ntohs status.datanodeListenPort⟩
  safeMode : n.safeMode = false ↔ ∃ i, (n.dnlist i).isSome

/-- The namenode while a search goes on: heartbeats may be handled between any two of its tests. -/
structure Course (n : Namenode) (states : Nat → Namenode) : Prop where
  first : states 0 = n
  next : ∀ t, states (t + 1) = states t ∨
    ∃ status ip, 1 ≤ status.datanodeId ∧ registerDatanode (states t) status ip = .ok (states (t + 1))

/-- The search that looks at entry `i` at time `t` ends. -/
inductive Search (states : Nat → Namenode) : Nat → Fin MAX_DATANODE_NUM → Prop
  | here {t : Nat} {i : Fin MAX_DATANODE_NUM} : ((states t).dnlist i).isSome → Search states t i
  | next {t : Nat} {i : Fin MAX_DATANODE_NUM} : (states t).dnlist i = none → Search states (t + 1) (i + 1) → Search states t i

variable {n n' : Namenode} {r : ClientReq} {name : List UInt8} {h : History} {e : Event} {reply : Option Reply}
  {status : DatanodeStatus} {ip : IpString} {states : Nat → Namenode}

/-! ### One heartbeat -/

/-- The namenode after an accepted heartbeat for entry `index`. -/
def Namenode.register (n : Namenode) (index : Fin MAX_DATANODE_NUM) (status : DatanodeStatus) (ip : IpString) : Namenode :=
  { n with
    dnlist := Function.update n.dnlist index (some ⟨status.datanodeId, ip, ntohs status.datanodeListenPort⟩)
    dncnt := if (n.dnlist index).isNone then n.dncnt + 1 else n.dncnt
    safeMode := false }

theorem registerDatanode_ok (n : Namenode) (ip : IpString) (low : 1 ≤ status.datanodeId) :
    (10 ≤ status.datanodeId ∧ registerDatanode n status ip = .ok n) ∨
      ∃ index : Fin MAX_DATANODE_NUM, status.datanodeId = index.val + 1 ∧ status.datanodeId < 10 ∧
        registerDatanode n status ip = .ok (n.register index status ip) := by
  by_cases accepted : status.datanodeId < 10
  · right
    have range : 0 ≤ status.datanodeId - 1 ∧ status.datanodeId - 1 < MAX_DATANODE_NUM :=
      ⟨by omega, show status.datanodeId - 1 < 10 by omega⟩
    refine ⟨⟨(status.datanodeId - 1).toNat, by omega⟩, ?_, accepted, ?_⟩
    · show status.datanodeId = ((status.datanodeId - 1).toNat : Int) + 1
      omega
    · have below : status.datanodeId < MAX_DATANODE_NUM := accepted
      rw [registerDatanode, if_pos below, dif_pos range]
      rfl
  · left
    exact ⟨by omega, if_neg accepted⟩

theorem card_present_register (n : Namenode) (index : Fin MAX_DATANODE_NUM) (count : n.dncnt = (present n).card) :
    (n.register index status ip).dncnt = (present (n.register index status ip)).card := by
  have after : present (n.register index status ip) = insert index (present n) := by
    ext i
    rw [Finset.mem_insert, present, present, Finset.mem_filter, Finset.mem_filter, Namenode.register]
    dsimp only
    by_cases here : i = index
    · rw [here, Function.update_self]
      exact iff_of_true ⟨Finset.mem_univ _, rfl⟩ (Or.inl rfl)
    · rw [Function.update_of_ne here]
      exact (or_iff_right here).symm
  rw [after, Namenode.register]
  dsimp only
  cases entry : n.dnlist index with
  | none =>
    have new : index ∉ present n := by
      rw [present, Finset.mem_filter, entry]
      exact fun both => Bool.false_ne_true both.2
    rw [Finset.card_insert_of_notMem new, Option.isNone_none, if_pos rfl, count]
    rfl
  | some datanode =>
    have old : index ∈ present n := by
      rw [present, Finset.mem_filter, entry]
      exact ⟨Finset.mem_univ _, rfl⟩
    rw [Finset.insert_eq_of_mem old, Option.isNone_some, if_neg Bool.false_ne_true, count]

theorem Registration.heartbeat (registration : Registration h n) (low : 1 ≤ status.datanodeId) (reply : Option Reply) :
    ∃ n', registerDatanode n status ip = .ok n' ∧ n'.fileImages = n.fileImages ∧
      Registration ((.heartbeat status ip, reply) :: h) n' := by
  rcases registerDatanode_ok n ip low with ⟨big, run⟩ | ⟨index, id, accepted, run⟩
  · refine ⟨n, run, rfl, registration.dncnt, ?_, registration.safeMode⟩
    intro i
    rw [registration.entries i, latest, if_neg fun both => absurd both.2 (not_lt.mpr big)]
  · refine ⟨_, run, rfl, card_present_register n index registration.dncnt, ?_, ?_⟩
    · intro i
      rw [Namenode.register, latest]
      dsimp only
      by_cases here : i = index
      · rw [here, Function.update_self, if_pos ⟨id, accepted⟩, Option.map_some, ← id]
      · have other : ¬ (status.datanodeId = i.val + 1 ∧ status.datanodeId < MAX_DATANODE_NUM) := by
          intro both
          exact here (Fin.ext (by omega))
        rw [Function.update_of_ne here, if_neg other, registration.entries i]
    · refine iff_of_true rfl ⟨index, ?_⟩
      rw [Namenode.register]
      dsimp only
      rw [Function.update_self]
      rfl

/-- Entries are never cleared. -/
theorem registerDatanode_keeps {i : Fin MAX_DATANODE_NUM} (low : 1 ≤ status.datanodeId)
    (run : registerDatanode n status ip = .ok n')
    (there : (n.dnlist i).isSome) : (n'.dnlist i).isSome := by
  rcases registerDatanode_ok n ip low with ⟨-, run'⟩ | ⟨index, -, -, run'⟩
  · rw [← Except.ok.inj (run'.symm.trans run)]
    exact there
  · rw [← Except.ok.inj (run'.symm.trans run), Namenode.register]
    dsimp only
    by_cases here : i = index
    · rw [here, Function.update_self]
      rfl
    · rw [Function.update_of_ne here]
      exact there

/-! ### Runs -/

theorem Handled.frame (handled : Handled n r name reply n') :
    n'.dnlist = n.dnlist ∧ n'.dncnt = n.dncnt ∧ n'.safeMode = n.safeMode := by
  cases handled with
  | _ => exact ⟨rfl, rfl, rfl⟩

theorem Registration.request (registration : Registration h n) (fileBlock : Int → BlockDesc)
    (handled : Handled n r name reply n') :
    Registration ((.request r fileBlock, reply) :: h) n' := by
  obtain ⟨dnlist, dncnt, safeMode⟩ := handled.frame
  constructor
  case dncnt => rw [dncnt, registration.dncnt, present, present, dnlist]
  case entries => rw [dnlist]; exact registration.entries
  case safeMode => rw [dnlist, safeMode]; exact registration.safeMode

inductive Happened (n : Namenode) : Event → Option Reply → Namenode → Prop
  | heartbeat {status : DatanodeStatus} {ip : IpString} {n' : Namenode} : n'.fileImages = n.fileImages →
      (∀ i, (n.dnlist i).isSome → (n'.dnlist i).isSome) → Happened n (.heartbeat status ip) none n'
  | request {r : ClientReq} {fileBlock : Int → BlockDesc} {reply : Option Reply} {n' : Namenode} (name : List UInt8) :
      cstr r.fileName = .ok name → Handled n r name reply n' → Happened n (.request r fileBlock) reply n'

theorem Event.run_ok (table : TableOk n) (registration : Registration h n) (fine : e.Fine n) :
    ∃ reply n', e.run n = .ok (reply, n') ∧ Happened n e reply n' ∧ TableOk n' ∧ Registration ((e, reply) :: h) n' := by
  cases e with
  | heartbeat status ip =>
    obtain ⟨n', run, images, registration'⟩ := @Registration.heartbeat n h status ip registration fine none
    refine ⟨none, n', ?_, .heartbeat images ?_, table.congr images, registration'⟩
    · rw [Event.run, run, ok_bind]
    · intro i
      exact registerDatanode_keeps fine run
  | request r fileBlock =>
    obtain ⟨served, name, request⟩ := fine
    obtain ⟨reply, n', run, handled⟩ := @answer_ok n r name fileBlock table (registration.safeMode.mp served) request
    exact ⟨reply, n', run, .request name request.string handled, table.handled handled, registration.request fileBlock handled⟩

theorem Reaches.holds (reached : Reaches h n) : TableOk n ∧ Registration h n := by
  induction reached with
  | initial =>
    refine ⟨.initial, rfl, fun i => rfl, ?_⟩
    apply iff_of_false Bool.true_eq_false.mp
    intro ⟨i, there⟩
    exact Bool.false_ne_true there
  | @step h n n' e reply _ fine run ih =>
    obtain ⟨reply', n'', run', -, table, registration⟩ := Event.run_ok ih.1 ih.2 fine
    obtain ⟨rfl, rfl⟩ := Prod.mk.inj (Except.ok.inj (run.symm.trans run'))
    exact ⟨table, registration⟩

theorem Reaches.happened (reached : Reaches h n) (fine : e.Fine n) (run : e.run n = .ok (reply, n')) : Happened n e reply n' := by
  obtain ⟨table, registration⟩ := reached.holds
  obtain ⟨reply', n'', run', happened, -⟩ := Event.run_ok table registration fine
  obtain ⟨rfl, rfl⟩ := Prod.mk.inj (Except.ok.inj (run.symm.trans run'))
  exact happened

theorem Reaches.progress (reached : Reaches h n) (fine : e.Fine n) : ∃ reply n',
    e.run n = .ok (reply, n') ∧ Happened n e reply n' := by
  obtain ⟨table, registration⟩ := reached.holds
  obtain ⟨reply, n', run, happened, -⟩ := Event.run_ok table registration fine
  exact ⟨reply, n', run, happened⟩

/-! ### The search -/

theorem Course.keeps (course : Course n states) {t : Nat} {i : Fin MAX_DATANODE_NUM} (there : ((states t).dnlist i).isSome) :
    ((states (t + 1)).dnlist i).isSome := by
  rcases course.next t with same | ⟨status, ip, low, run⟩
  · rw [same]
    exact there
  · exact registerDatanode_keeps low run there

/-- The measure is the way that is left to a registered datanode. -/
theorem Course.search (course : Course n states) {t : Nat} {index i : Fin MAX_DATANODE_NUM} (there : ((states t).dnlist i).isSome)
    (left : Nat) (way : (i - index).val = left) : Search states t index := by
  induction left generalizing t index with
  | zero =>
    have here : i = index := sub_eq_zero.mp (Fin.ext way)
    exact .here (here ▸ there)
  | succ left ih =>
    cases entry : (states t).dnlist index with
    | some datanode =>
      refine .here ?_
      rw [entry]
      rfl
    | none =>
      refine .next entry (ih (course.keeps there) ?_)
      have low : i.val < 10 := i.isLt
      have high : index.val < 10 := index.isLt
      have before : (10 - index.val + i.val) % 10 = left + 1 := way
      show (10 - (index.val + 1) % 10 + i.val) % 10 = left
      omega

theorem Registration.search (registration : Registration h n) (served : n.safeMode = false) (course : Course n states)
    (index : Fin MAX_DATANODE_NUM) : Search states 0 index := by
  obtain ⟨i, there⟩ := registration.safeMode.mp served
  rw [← course.first] at there
  exact course.search there _ rfl

/-- In every state that is reached the registered datanodes are those of the latest heartbeats, every search
ends while requests are served, and whatever comes next is handled. -/
theorem registration_holds (reached : Reaches h n) :
    Registration h n ∧ (n.safeMode = false → ∀ states, Course n states → ∀ index, Search states 0 index) ∧
      ∀ e : Event, e.Fine n → ∃ reply n', e.run n = .ok (reply, n') := by
  obtain ⟨-, registration⟩ := reached.holds
  refine ⟨registration, ?_, ?_⟩
  · intro served states course index
    exact registration.search served course index
  · intro e fine
    obtain ⟨reply, n', run, -⟩ := reached.progress fine
    exact ⟨reply, n', run⟩

/-- A write request for a new name is answered and sets a free entry. -/
theorem Reaches.write (reached : Reaches h n) (registered : Registered n) {fileName : Bytes 256} {name : List UInt8}
    (string : cstr fileName = .ok name) (new : ∀ i image, ¬ ImageAt n name i image) (free : ∃ i, n.fileImages i = none) :
    ∃ i image, n.fileImages i = none ∧ cstr image.filename = .ok name ∧ image.blocknum = 1 ∧
      Reaches ((.request ⟨fileName, 1024, 1⟩ fun _ => .zero, some (.file image)) :: h)
        { n with fileImages := Function.update n.fileImages i (some image) } := by
  have served := reached.holds.2.safeMode.mpr registered
  have fine : Event.Fine n (.request ⟨fileName, 1024, 1⟩ fun _ => .zero) := by
    refine ⟨served, name, by show (0 : Int) ≤ 1024; decide, string, fun i image there => absurd there (new i image), fun _ _ _ => ?_⟩
    show blocksFor 1024 ≤ 100
    decide
  obtain ⟨reply, n', run, happened⟩ := reached.progress fine
  have reached' := Reaches.step reached fine run
  cases happened with
  | request name' string' handled =>
    obtain rfl : name' = name := Except.ok.inj (string'.symm.trans string)
    cases handled with
    | status kind => cases kind
    | ignored _ kind => exact absurd rfl kind
    | absent kind _ => rcases kind with kind | kind <;> cases kind
    | found i image kind _ => rcases kind with kind | kind <;> cases kind
    | full _ _ taken =>
      obtain ⟨i, empty⟩ := free
      have here := taken i
      rw [empty] at here
      cases here
    | stored i image image' _ place extended blocknum =>
      cases place with
      | old there => exact absurd there (new i image)
      | new _ _ empty _ _ _ => exact ⟨i, image', empty, extended.filename, blocknum rfl, reached'⟩

def oneRegistered : Namenode := Namenode.initial.register 0 ⟨1, 0⟩ loopback

def oneHeartbeat : History := [(.heartbeat ⟨1, 0⟩ loopback, none)]

theorem oneRegistered_reached : Reaches oneHeartbeat oneRegistered := .step .initial (Int.le_refl 1) rfl

theorem oneRegistered_holds : Registration oneHeartbeat oneRegistered ∧
    (oneRegistered.safeMode = false → ∀ states, Course oneRegistered states → ∀ index, Search states 0 index) ∧
      ∀ e : Event, e.Fine oneRegistered → ∃ reply n', e.run oneRegistered = .ok (reply, n') :=
  registration_holds oneRegistered_reached

def otherName : Bytes 256 := Bytes.zero.patch 0 [103]

theorem cstr_otherName : cstr otherName = .ok [103] := by decide +kernel

/-- One datanode has sent a heartbeat, and clients have asked to write the files `f` and `g`. -/
theorem pushed_reached : ∃ h n i j image image', Reaches h n ∧ ImageAt n [102] i image ∧ ImageAt n [103] j image' ∧
    image.blocknum = 1 ∧ image'.blocknum = 1 ∧
    (.request ⟨letterName, 1024, 1⟩ fun _ => .zero, some (.file image)) ∈ h := by
  have new : ∀ i image, ¬ ImageAt oneRegistered [102] i image := fun i image there => by cases there.entry
  obtain ⟨i, image, -, string, blocks, reached⟩ := oneRegistered_reached.write ⟨0, rfl⟩ cstr_letterName new ⟨0, rfl⟩
  have absent : ∀ j image', ¬ ImageAt { oneRegistered with
      fileImages := Function.update oneRegistered.fileImages i (some image) } [103] j image' := by
    intro j image' there
    rw [imageAt_update] at there
    split at there
    · exact absurd (Except.ok.inj (string.symm.trans there.2)) (by decide)
    · cases there.entry
  obtain ⟨k, other⟩ := exists_ne i
  obtain ⟨j, image', empty, string', blocks', reached'⟩ := reached.write ⟨0, rfl⟩ cstr_otherName absent
    ⟨k, Function.update_of_ne other ..⟩
  have apart : i ≠ j := by
    rintro rfl
    dsimp only at empty
    rw [Function.update_self] at empty
    cases empty
  refine ⟨_, _, i, j, image, image', reached', imageAt_update.mpr ?_, imageAt_update.mpr ?_, blocks, blocks',
    List.mem_cons_of_mem _ (List.mem_cons_self ..)⟩
  · rw [if_neg apart]
    exact imageAt_update.mpr (by rw [if_pos rfl]; exact ⟨rfl, string⟩)
  · rw [if_pos rfl]
    exact ⟨rfl, string'⟩

end StorageStack.Dfs
