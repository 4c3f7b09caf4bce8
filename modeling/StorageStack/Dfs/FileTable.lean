import StorageStack.Dfs.Registration

/-!
# The table of files as a map

A name is in the table if and only if a write request for it was answered, and it keeps its place. The
answer to a read request is the image that the table has.
-/

namespace StorageStack.Dfs
open Lib CString

/-- The event is a request of this type for this name. -/
def Event.Asks (e : Event) (reqType : Int) (name : List UInt8) : Prop :=
  ∃ r fileBlock, e = .request r fileBlock ∧ r.reqType = reqType ∧ cstr r.fileName = .ok name

/-- A write request for the name was answered. -/
def Accepted (h : History) (name : List UInt8) : Prop := ∃ e reply, (e, some reply) ∈ h ∧ e.Asks 1 name

/-- The table is a map, with the names that were accepted. -/
structure NameMap (h : History) (n : Namenode) : Prop where
  filled : ∃ count, ∀ i : Fin MAX_FILE_COUNT, (n.fileImages i).isSome ↔ i.val < count
  strings : ∀ i image, n.fileImages i = some image → ∃ name, ImageAt n name i image
  distinct : ∀ i j image image' name, ImageAt n name i image → ImageAt n name j image' → i = j
  accepted : ∀ name, (∃ i image, ImageAt n name i image) ↔ Accepted h name

/-- No entry is lost or renamed, a read is answered with the current entry of an accepted name, and a write is
refused only for a new name and without a free place. -/
structure MapStep (h : History) (n : Namenode) (e : Event) (reply : Option Reply) (n' : Namenode) : Prop where
  kept : ∀ name i image, ImageAt n name i image → ∃ image', ImageAt n' name i image'
  answered : ∀ name, e.Asks 0 name → (reply.isSome ↔ Accepted h name)
  current : ∀ name, e.Asks 0 name → ∀ answer, reply = some answer → ∃ i image, ImageAt n name i image ∧ answer = .file image
  refused : ∀ name, e.Asks 1 name → (reply = none ↔ (∀ i image, ¬ ImageAt n name i image) ∧ ∀ i, (n.fileImages i).isSome)
  unchanged : ∀ name, e.Asks 1 name → reply = none → n' = n

variable {n n' : Namenode} {r : ClientReq} {name name' : List UInt8} {h : History} {e : Event} {reply : Option Reply}
  {fileBlock : Int → BlockDesc} {image image' : FileDesc} {i : Fin MAX_FILE_COUNT}

theorem Asks_request {reqType : Int} (string : cstr r.fileName = .ok name)
    (asks : (Event.request r fileBlock).Asks reqType name') : r.reqType = reqType ∧ name' = name := by
  obtain ⟨r', fileBlock', same, kind, string'⟩ := asks
  obtain ⟨rfl, -⟩ := Event.request.inj same
  exact ⟨kind, Except.ok.inj (string'.symm.trans string)⟩

theorem heartbeat_silent {status : DatanodeStatus} {ip : IpString} (reqType : Int) (name : List UInt8) :
    ¬ (Event.heartbeat status ip).Asks reqType name := by
  intro ⟨r, fileBlock, same, _⟩
  cases same

theorem accepted_cons : Accepted ((e, reply) :: h) name ↔ reply.isSome ∧ e.Asks 1 name ∨ Accepted h name := by
  constructor
  · intro ⟨e', reply', member, asks⟩
    rcases List.mem_cons.mp member with same | member
    · obtain ⟨rfl, rfl⟩ := Prod.mk.inj same
      exact .inl ⟨rfl, asks⟩
    · exact .inr ⟨e', reply', member, asks⟩
  · intro either
    rcases either with ⟨answered, asks⟩ | ⟨e', reply', member, asks⟩
    · obtain ⟨reply', rfl⟩ := Option.isSome_iff_exists.mp answered
      exact ⟨e, reply', List.mem_cons_self .., asks⟩
    · exact ⟨e', reply', List.mem_cons_of_mem _ member, asks⟩

/-! ### The names of the table -/

/-- An entry that is set has the name of the request, before and after. -/
theorem Place.kept (place : Place n r name i image) (extended : Extended n name image image') {j : Fin MAX_FILE_COUNT}
    {other : FileDesc}
    (there : ImageAt n name' j other) :
    ∃ other', ImageAt { n with fileImages := Function.update n.fileImages i (some image') } name' j other' := by
  by_cases here : j = i
  · subst here
    refine ⟨image', imageAt_update.mpr ?_⟩
    rw [if_pos rfl]
    refine ⟨rfl, ?_⟩
    cases place with
    | old same =>
      obtain rfl : other = image := Option.some.inj (there.entry.symm.trans same.entry)
      rw [extended.filename, ← same.name, there.name]
    | new _ _ empty _ _ _ =>
      have both := there.entry
      rw [empty] at both
      cases both
  · refine ⟨other, imageAt_update.mpr ?_⟩
    rw [if_neg here]
    exact there

theorem Place.names (place : Place n r name i image) (extended : Extended n name image image') :
    (∃ j other, ImageAt { n with fileImages := Function.update n.fileImages i (some image') } name' j other) ↔
      name' = name ∨ ∃ j other, ImageAt n name' j other := by
  constructor
  · intro ⟨j, other, there⟩
    rw [imageAt_update] at there
    split at there
    case isTrue => exact .inl (Except.ok.inj (there.2.symm.trans extended.filename))
    case isFalse => exact .inr ⟨j, other, there⟩
  · intro either
    rcases either with rfl | ⟨j, other, there⟩
    · refine ⟨i, image', imageAt_update.mpr ?_⟩
      rw [if_pos rfl]
      exact ⟨rfl, extended.filename⟩
    · obtain ⟨other', there'⟩ := place.kept extended there
      exact ⟨j, other', there'⟩

theorem Handled.names (handled : Handled n r name reply n') :
    (∃ j other, ImageAt n' name' j other) ↔ (reply.isSome ∧ r.reqType = 1 ∧ name' = name) ∨ ∃ j other,
      ImageAt n name' j other := by
  cases handled with
  | status kind => exact (or_iff_right fun both => absurd (kind.symm.trans both.2.1) (by decide)).symm
  | ignored _ other => exact (or_iff_right fun both => other both.2.1).symm
  | absent kind _ => exact (or_iff_right fun both => absurd both.1 Bool.false_ne_true).symm
  | full _ _ _ => exact (or_iff_right fun both => absurd both.1 Bool.false_ne_true).symm
  | found i image kind _ =>
    refine (or_iff_right ?_).symm
    intro both
    omega
  | stored i image image' kind place extended _ =>
    rw [place.names extended]
    constructor
    · intro either
      rcases either with same | there
      · cases place with
        | old here => exact .inr ⟨i, image, same ▸ here⟩
        | new write _ _ _ _ _ => exact .inl ⟨rfl, write, same⟩
      · exact .inr there
    · intro either
      rcases either with ⟨_, _, same⟩ | there
      · exact .inl same
      · exact .inr there

theorem NameMap.of (table : TableOk n)
    (accepted : ∀ name, (∃ i image, ImageAt n name i image) ↔ Accepted h name) : NameMap h n where
  filled := table.filled
  strings := by
    intro i image entry
    exact ⟨_, (imageAt_iff table.named).mpr ⟨entry, rfl⟩⟩
  distinct := table.distinct
  accepted := accepted

theorem Reaches.accepted (reached : Reaches h n) : ∀ name, (∃ i image, ImageAt n name i image) ↔ Accepted h name := by
  induction reached with
  | initial =>
    intro name
    refine iff_of_false ?_ ?_
    · intro ⟨i, image, there⟩
      cases there.entry
    · intro ⟨e, reply, member, _⟩
      cases member
  | @step h n n' e reply before fine run ih =>
    intro name
    rw [accepted_cons, ← ih name]
    cases before.happened fine run with
    | heartbeat images _ =>
      rw [or_iff_right fun both => heartbeat_silent 1 name both.2]
      constructor
      · intro ⟨i, image, there⟩
        exact ⟨i, image, images ▸ there.entry, there.name⟩
      · intro ⟨i, image, there⟩
        exact ⟨i, image, images.symm ▸ there.entry, there.name⟩
    | @request r fileBlock _ _ asked string handled =>
      have asks : (Event.request r fileBlock).Asks 1 name ↔ r.reqType = 1 ∧ name = asked := by
        constructor
        · exact Asks_request string
        · intro ⟨kind, same⟩
          exact ⟨r, fileBlock, rfl, kind, same ▸ string⟩
      rw [handled.names, asks]

/-! ### One event -/

theorem Handled.mapStep (accepted : ∀ name, (∃ i image, ImageAt n name i image) ↔ Accepted h name)
    (string : cstr r.fileName = .ok name)
    (handled : Handled n r name reply n') : MapStep h n (.request r fileBlock) reply n' := by
  constructor
  case kept =>
    intro name' i image there
    cases handled with
    | stored i image image' _ place extended _ => exact place.kept extended there
    | _ => exact ⟨image, there⟩
  case answered =>
    intro name' asks
    obtain ⟨kind, rfl⟩ := Asks_request string asks
    rw [← accepted]
    cases handled with
    | status other => omega
    | ignored other _ => exact absurd kind other
    | absent _ absent => exact iff_of_false Bool.false_ne_true fun ⟨i, image, there⟩ => absent i image there
    | full other _ _ => omega
    | found i image _ there => exact iff_of_true rfl ⟨i, image, there⟩
    | stored i image image' other _ _ _ => omega
  case current =>
    intro name' asks answer same
    obtain ⟨kind, rfl⟩ := Asks_request string asks
    cases handled with
    | status other => omega
    | ignored => cases same
    | absent => cases same
    | full => cases same
    | found i image _ there => exact ⟨i, image, there, (Option.some.inj same).symm⟩
    | stored i image image' other _ _ _ => omega
  case refused =>
    intro name' asks
    obtain ⟨kind, rfl⟩ := Asks_request string asks
    cases handled with
    | status other => omega
    | ignored _ other => exact absurd kind other
    | absent other _ => omega
    | full _ absent taken => exact iff_of_true rfl ⟨absent, taken⟩
    | found i image other _ => omega
    | stored i image image' _ place _ _ =>
      refine iff_of_false (fun none => by cases none) ?_
      intro ⟨unknown, taken⟩
      cases place with
      | old there => exact unknown i image there
      | new _ _ empty _ _ _ =>
        have here := taken i
        rw [empty] at here
        cases here
  case unchanged =>
    intro name' asks same
    cases handled with
    | stored => cases same
    | _ => rfl

theorem registerDatanode_mapStep {status : DatanodeStatus} {ip : IpString} (images : n'.fileImages = n.fileImages) :
    MapStep h n (.heartbeat status ip) none n' := by
  constructor
  case kept =>
    intro name i image there
    exact ⟨image, images.symm ▸ there.entry, there.name⟩
  all_goals
    intro name asks
    exact absurd asks (heartbeat_silent _ _)

/-- In every state that is reached the table is a map from the accepted names, and every event keeps it so. -/
theorem nameMap_holds (reached : Reaches h n) :
    NameMap h n ∧ ∀ e : Event, e.Fine n → ∃ reply n', e.run n = .ok (reply, n') ∧ MapStep h n e reply n' := by
  refine ⟨.of reached.holds.1 reached.accepted, ?_⟩
  intro e fine
  obtain ⟨reply, n', run, happened⟩ := reached.progress fine
  refine ⟨reply, n', run, ?_⟩
  cases happened with
  | heartbeat images _ => exact registerDatanode_mapStep images
  | request _ string handled => exact handled.mapStep reached.accepted string

/-- Two files are in the table. -/
theorem twoFiles_nameMap : ∃ h n, Accepted h [102] ∧ Accepted h [103] ∧ NameMap h n ∧ ∀ e : Event, e.Fine n →
    ∃ reply n', e.run n = .ok (reply, n') ∧ MapStep h n e reply n' := by
  obtain ⟨h, n, i, j, image, image', reached, first, second, -⟩ := pushed_reached
  obtain ⟨map, steps⟩ := nameMap_holds reached
  exact ⟨h, n, (map.accepted _).mp ⟨i, image, first⟩, (map.accepted _).mp ⟨j, image', second⟩, map, steps⟩

end StorageStack.Dfs
