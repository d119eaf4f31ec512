import WsChat.Members
import WsChat.Lib.Writes

/-! The saved state: what is written is read back, and a server that loads it has the same
rooms without members. -/
namespace WsChat
open Lib Relation ClientsManager

theorem foldl_insert_elems {α : Type} [DecidableEq α] (l : List α) (s : IterSet α)
    (hl : (s.elems ++ l).Nodup) : (l.foldl (fun s a => s.insert a) s).elems = s.elems ++ l := by
  induction l generalizing s with
  | nil => simp
  | cons a l ih =>
    have ha : a ∉ s := by
      intro h
      exact (List.nodup_append.mp hl).2.2 a h a List.mem_cons_self rfl
    have he : (s.insert a).elems = s.elems ++ [a] := IterSet.elems_insert_back ha
    rw [List.foldl_cons, ih, he, List.append_assoc, List.singleton_append]
    rw [he, List.append_assoc, List.singleton_append]
    exact hl

theorem setOf_elems {α : Type} [DecidableEq α] (s : IterSet α) : setOf s.elems = s := by
  have h := foldl_insert_elems s.elems ∅ (by simpa using s.nodup)
  exact IterSet.ext h

def MemberInfo.refile (infos : List MemberInfo) : AList (fun _ : UInt32 => MemberInfo) :=
  infos.foldl (fun t info => t.insert info.userId info) ∅

theorem MemberInfo.lookup_refile (t : AList (fun _ : UInt32 => MemberInfo))
    (h : ∀ uid info, t.lookup uid = some info → info.userId = uid) (uid : UInt32) :
    (MemberInfo.refile (t.entries.map Sigma.snd)).lookup uid = t.lookup uid := by
  have hkey : ∀ p ∈ t.entries, p.2.userId = p.1 := fun p hp =>
    h p.1 p.2 (AList.mem_lookup_iff.mpr hp)
  have hkeys : (t.entries.map Sigma.snd).map MemberInfo.userId = t.keys := by
    rw [List.map_map]
    exact List.map_congr_left fun p hp => hkey p hp
  have hwrites : MemberInfo.refile (t.entries.map Sigma.snd) =
      writeAll MemberInfo.userId ∅ (t.entries.map Sigma.snd) := rfl
  rw [hwrites, lookup_writeAll, lastWrite_of_nodup (hkeys ▸ t.keys_nodup), AList.lookup_empty, Option.or_none]
  cases hlook : t.lookup uid with
  | some info =>
    have hin : (⟨uid, info⟩ : Sigma fun _ : UInt32 => MemberInfo) ∈ t.entries := AList.mem_lookup_iff.mp hlook
    cases hfind : (t.entries.map Sigma.snd).find? fun i => i.userId = uid with
    | none =>
      have := List.find?_eq_none.mp hfind info (List.mem_map.mpr ⟨_, hin, rfl⟩)
      simp [h uid info hlook] at this
    | some i =>
      obtain ⟨p, hp, rfl⟩ := List.mem_map.mp (List.mem_of_find?_eq_some hfind)
      have hu : p.1 = uid := by simpa [hkey p hp] using List.find?_some hfind
      have hp' : t.lookup p.1 = some p.2 := AList.mem_lookup_iff.mpr hp
      rw [hu, hlook] at hp'
      exact hp'.symm
  | none =>
    refine List.find?_eq_none.mpr fun i hi he => ?_
    obtain ⟨p, hp, rfl⟩ := List.mem_map.mp hi
    have hu : p.1 = uid := by simpa [hkey p hp] using he
    have hp' : t.lookup p.1 = some p.2 := AList.mem_lookup_iff.mpr hp
    rw [hu, hlook] at hp'
    cases hp'

theorem MemberInfo.deserialize_serialize (info : MemberInfo) :
    MemberInfo.deserialize info.serialize = .ok info := by
  unfold MemberInfo.deserialize MemberInfo.serialize
  simp (disch := decide +kernel) only [Json.get_cons_ne, Json.get_cons_self]
  simp only [bind, Except.bind, Json.asUInt_uint, Json.asString_str, Json.asBool_bool]
  rfl

/-- A room as it is after it was saved and loaded. -/
def Room.reloaded (rm : Room) : Room :=
  { rm with
    members := ∅
    nextMemberId := 0
    membersInfo := MemberInfo.refile (rm.membersInfo.entries.map Sigma.snd) }

theorem Room.deserialize_serialize (rm : Room) : Room.deserialize rm.serialize = .ok rm.reloaded := by
  have hinfos : (rm.membersInfo.entries.map fun p => p.2.serialize) =
      (rm.membersInfo.entries.map Sigma.snd).map MemberInfo.serialize := by
    rw [List.map_map]
    rfl
  unfold Room.deserialize Room.serialize
  simp (disch := decide +kernel) only [Json.get_cons_ne, Json.get_cons_self]
  simp only [bind, Except.bind, Json.asUInt_uint, Json.asString_str, Json.items_arr,
    Json.mapM_map_ok Json.asString_str, Json.mapM_map_ok Json.asUInt_uint, hinfos,
    Json.mapM_map_ok MemberInfo.deserialize_serialize, setOf_elems]
  rfl

/-- What is meant to persist is the same in both rooms. -/
structure Room.SameRecord (rm rm' : Room) : Prop where
  name : rm'.name = rm.name
  ownerId : rm'.ownerId = rm.ownerId
  nextMessageId : rm'.nextMessageId = rm.nextMessageId
  history : rm'.history = rm.history
  membersInfo : ∀ uid, rm'.membersInfo.lookup uid = rm.membersInfo.lookup uid
  bannedNicks : rm'.bannedNicks = rm.bannedNicks
  bannedIps : rm'.bannedIps = rm.bannedIps
  bannedUids : rm'.bannedUids = rm.bannedUids
  moderators : rm'.moderators = rm.moderators

theorem Room.Filed.sameRecord {rm : Room} (h : rm.Filed) : Room.SameRecord rm rm.reloaded :=
  ⟨rfl, rfl, rfl, rfl, MemberInfo.lookup_refile rm.membersInfo h, rfl, rfl, rfl, rfl⟩

/-- Two saved rooms agree up to the order in which sets and maps were written. -/
def Json.SameRoom (val val' : Json) : Prop :=
  (∀ key ∈ [utf8 "owner_id", utf8 "name", utf8 "nextMessageId", utf8 "history"], val'.get key = val.get key) ∧
  ∀ key ∈ [utf8 "members_info", utf8 "bannedNicks", utf8 "bannedIps", utf8 "bannedUids", utf8 "moderators"],
    ∃ l l', val.get key = .ok (.arr l) ∧ val'.get key = .ok (.arr l') ∧ l'.Perm l

theorem Room.SameRecord.serialize {rm rm' : Room} (h : Room.SameRecord rm rm') :
    Json.SameRoom rm.serialize rm'.serialize := by
  have hperm : rm'.membersInfo.entries.Perm rm.membersInfo.entries := by
    refine List.lookup_ext rm'.membersInfo.nodupKeys rm.membersInfo.nodupKeys fun uid info => ?_
    rw [show rm'.membersInfo.entries.dlookup uid = rm.membersInfo.entries.dlookup uid from h.membersInfo uid]
  refine ⟨?_, ?_⟩
  · intro key hkey
    simp only [List.mem_cons, List.not_mem_nil, or_false] at hkey
    unfold Room.serialize
    rcases hkey with rfl | rfl | rfl | rfl <;>
      simp (disch := decide +kernel) only [Json.get_cons_ne, Json.get_cons_self, h.name, h.ownerId,
        h.nextMessageId, h.history]
  · intro key hkey
    simp only [List.mem_cons, List.not_mem_nil, or_false] at hkey
    unfold Room.serialize
    rcases hkey with rfl | rfl | rfl | rfl | rfl <;>
      simp (disch := decide +kernel) only [Json.get_cons_ne, Json.get_cons_self]
    · exact ⟨_, _, rfl, rfl, hperm.map _⟩
    · exact ⟨_, _, rfl, rfl, by rw [h.bannedNicks]⟩
    · exact ⟨_, _, rfl, rfl, by rw [h.bannedIps]⟩
    · exact ⟨_, _, rfl, rfl, by rw [h.bannedUids]⟩
    · exact ⟨_, _, rfl, rfl, by rw [h.moderators]⟩

def World.load (w : World) (rm : Room) : World :=
  { w with
    nextRoom := w.nextRoom + 1
    roomAt := Function.update w.roomAt ⟨w.nextRoom⟩ rm
    rooms := w.rooms.insert ⟨w.nextRoom⟩ w.order.rooms }

theorem Server.deserializeRooms_serialize (l : List Room) (w : World) :
    Server.deserializeRooms (l.map Room.serialize) w = l.foldl (fun w rm => w.load rm.reloaded) w := by
  induction l generalizing w with
  | nil => rfl
  | cons rm l ih =>
    have hload : Server.deserializeRoom w rm.serialize = .ok (w.load rm.reloaded) := by
      unfold Server.deserializeRoom
      rw [Room.deserialize_serialize]
      rfl
    rw [List.map_cons, Server.deserializeRooms, hload, List.foldl_cons]
    exact ih _

theorem Server.rooms_serialize (w : World) : ∃ rooms, (Server.serialize w).get (utf8 "rooms") = .ok rooms ∧
    rooms.items = (w.rooms.elems.map w.roomAt).map Room.serialize := by
  unfold Server.serialize
  rw [Json.get_cons_self]
  cases h : w.rooms.elems with
  | nil => exact ⟨_, rfl, rfl⟩
  | cons r l => exact ⟨_, rfl, by simp⟩

theorem Server.deserialize_serialize (w w₀ : World) :
    Server.deserialize w (Server.serialize w₀) =
      (w₀.rooms.elems.map w₀.roomAt).foldl (fun w rm => w.load rm.reloaded) { w with rooms := ∅ } := by
  obtain ⟨rooms, hget, hitems⟩ := Server.rooms_serialize w₀
  unfold Server.deserialize
  rw [hget]
  dsimp only
  rw [hitems, Server.deserializeRooms_serialize]

theorem World.foldl_load (f : Room → Room) (l : List Room) (w : World) (hw : ∀ r ∈ w.rooms, r.addr < w.nextRoom) :
    let w' := l.foldl (fun w rm => w.load (f rm)) w
    (w'.rooms.elems.map w'.roomAt).Perm (l.map f ++ w.rooms.elems.map w.roomAt) ∧
      ∀ r, w'.roomAt r = w.roomAt r ∨ ∃ rm ∈ l, w'.roomAt r = f rm := by
  induction l generalizing w with
  | nil => exact ⟨by simp, fun _ => .inl rfl⟩
  | cons rm l ih =>
    have hnew : (⟨w.nextRoom⟩ : RoomPtr) ∉ w.rooms := fun h => Nat.lt_irrefl _ (hw _ h)
    have helems : (w.load (f rm)).rooms.elems.Perm (⟨w.nextRoom⟩ :: w.rooms.elems) := IterSet.elems_insert hnew
    have hbelow : ∀ r ∈ (w.load (f rm)).rooms, r.addr < (w.load (f rm)).nextRoom := by
      intro r hr
      rcases IterSet.mem_insert.mp hr with rfl | hr
      · exact Nat.lt_succ_self _
      · exact (hw r hr).trans (Nat.lt_succ_self _)
    obtain ⟨hrooms, hall⟩ := ih (w.load (f rm)) hbelow
    refine ⟨?_, fun r => ?_⟩
    · rw [List.foldl_cons]
      refine hrooms.trans ?_
      have hold : w.rooms.elems.map (w.load (f rm)).roomAt = w.rooms.elems.map w.roomAt := by
        refine List.map_congr_left fun r hr => ?_
        have hne : r ≠ ⟨w.nextRoom⟩ := by
          rintro rfl
          exact hnew hr
        exact Function.update_of_ne hne _ _
      have hlast : (w.load (f rm)).roomAt ⟨w.nextRoom⟩ = f rm := Function.update_self ..
      have hthere : ((w.load (f rm)).rooms.elems.map (w.load (f rm)).roomAt).Perm
          (f rm :: w.rooms.elems.map w.roomAt) := by
        refine (helems.map _).trans (List.Perm.of_eq ?_)
        rw [List.map_cons, hlast, hold]
      exact (hthere.append_left _).trans List.perm_middle
    · rw [List.foldl_cons]
      rcases hall r with he | ⟨rm', hrm', he⟩
      · by_cases hr : r = ⟨w.nextRoom⟩
        · subst hr
          refine .inr ⟨rm, List.mem_cons_self, he.trans ?_⟩
          exact Function.update_self ..
        · exact .inl (he.trans (Function.update_of_ne hr _ _))
      · exact .inr ⟨rm', List.mem_cons_of_mem rm hrm', he⟩

theorem Server.deserialize_rooms (w w₀ : World) :
    let w' := Server.deserialize w (Server.serialize w₀)
    (w'.rooms.elems.map w'.roomAt).Perm (w₀.rooms.elems.map fun r => (w₀.roomAt r).reloaded) ∧
      ∀ r, w'.roomAt r = w.roomAt r ∨ ∃ s ∈ w₀.rooms, w'.roomAt r = (w₀.roomAt s).reloaded := by
  have h := World.foldl_load Room.reloaded (w₀.rooms.elems.map w₀.roomAt) { w with rooms := ∅ }
    fun r hr => absurd hr (IterSet.not_mem_empty r)
  rw [← Server.deserialize_serialize] at h
  refine ⟨?_, fun r => ?_⟩
  · simpa [Function.comp_def] using h.1
  · rcases h.2 r with he | ⟨rm, hrm, he⟩
    · exact .inl he
    · obtain ⟨s, hs, rfl⟩ := List.mem_map.mp hrm
      exact .inr ⟨s, hs, he⟩

/-- What holds of the rooms in the file on the disk. -/
def World.Stored (P : Room → Prop) (w : World) : Prop :=
  w.disk = .null ∨ ∃ w₀ : World, w.disk = Server.serialize w₀ ∧ ∀ r ∈ w₀.rooms, P (w₀.roomAt r)

theorem World.Stored.restart {P : Room → Prop} (hreload : ∀ rm, P rm → P rm.reloaded) {w : World} (h : w.Stored P) :
    ∀ r ∈ w.restart.rooms, P (w.restart.roomAt r) := by
  unfold World.restart
  rcases h with hd | ⟨w₀, hd, hsaved⟩
  · rw [hd]
    exact fun r hr => absurd hr (IterSet.not_mem_empty r)
  · rw [hd]
    intro r hr
    have hin := List.mem_map_of_mem (f := (Server.deserialize w.fresh (Server.serialize w₀)).roomAt) hr
    obtain ⟨s, hs, he⟩ := List.mem_map.mp ((Server.deserialize_rooms w.fresh w₀).1.mem_iff.mp hin)
    rw [← he]
    exact hreload _ (hsaved s hs)

theorem World.restart_disk {w : World} (hsaved : w.Saved) : w.restart.disk = w.disk := by
  obtain ⟨ms, -, he⟩ := World.restart_evolves hsaved
  exact he.disk

theorem World.restart_sent (w : World) : w.restart.sent = w.sent := by
  have hrooms : ∀ l w, (Server.deserializeRooms l w).sent = World.sent w := by
    intro l
    induction l with
    | nil => exact fun _ => rfl
    | cons val l ih =>
      intro w
      unfold Server.deserializeRooms
      split
      · rename_i w₁ hok
        unfold Server.deserializeRoom at hok
        obtain ⟨rm, -, hok⟩ := Except.bind_ok hok
        cases hok
        exact ih _
      · rfl
  unfold World.restart Server.deserialize
  split
  · exact hrooms _ _
  · rfl

/-- Whatever holds of a new room and of every room that is loaded holds after a restart. -/
theorem Server.deserialize_roomAt {P : Room → Prop} (hload : ∀ val rm, Room.deserialize val = .ok rm → P rm)
    {w : World} (hw : ∀ r, P (w.roomAt r)) (val : Json) : ∀ r, P ((Server.deserialize w val).roomAt r) := by
  have hrooms : ∀ l w, (∀ r, P (World.roomAt w r)) → ∀ r, P ((Server.deserializeRooms l w).roomAt r) := by
    intro l
    induction l with
    | nil => exact fun w hw => hw
    | cons val l ih =>
      intro w hw
      unfold Server.deserializeRooms
      split
      · rename_i w₁ hok
        refine ih w₁ fun r => ?_
        unfold Server.deserializeRoom at hok
        obtain ⟨rm, hrm, hok⟩ := Except.bind_ok hok
        cases hok
        by_cases hr : r = ⟨w.nextRoom⟩
        · subst hr
          simpa using hload val rm hrm
        · simpa [hr] using hw r
      · exact hw
  unfold Server.deserialize
  split
  · exact hrooms _ _ hw
  · exact hw

theorem MemberInfo.refile_filed {rm : Room} {infos : List MemberInfo}
    (h : rm.membersInfo = MemberInfo.refile infos) : rm.Filed := by
  have hfold : ∀ (l : List MemberInfo) (t : AList (fun _ : UInt32 => MemberInfo)),
      (∀ uid info, t.lookup uid = some info → info.userId = uid) → ∀ uid info,
      (l.foldl (fun t info => t.insert info.userId info) t).lookup uid = some info → info.userId = uid := by
    intro l
    induction l with
    | nil => exact fun t ht => ht
    | cons i l ih =>
      intro t ht
      refine ih _ fun uid info hi => ?_
      by_cases hu : uid = i.userId
      · subst hu
        rw [AList.lookup_insert] at hi
        cases hi
        rfl
      · rw [AList.lookup_insert_ne hu] at hi
        exact ht uid info hi
  unfold Room.Filed
  rw [h]
  exact hfold infos ∅ fun uid info hi => by cases hi

theorem Room.deserialize_filed (val : Json) (rm : Room) (h : Room.deserialize val = .ok rm) : rm.Filed := by
  unfold Room.deserialize at h
  iterate 9 obtain ⟨_, -, h⟩ := Except.bind_ok h
  obtain ⟨infos, -, h⟩ := Except.bind_ok h
  iterate 8 obtain ⟨_, -, h⟩ := Except.bind_ok h
  cases h
  exact MemberInfo.refile_filed rfl

section
variable {env : Env} {c : ClientPtr} {w₀ w w' : World} {S : Bytes → Prop}

theorem Quiet.membersInfo (h : Quiet env c w₀ S w w') (r : RoomPtr) :
    (w'.roomAt r).membersInfo = (w.roomAt r).membersInfo := by
  cases h with
  | tell | list | touch | identify | whisper | presence | typing | dress | rename => rfl
  | say s =>
    rw [Room.say_eq]
    by_cases hs : r = s <;> simp [hs]
  | restyle =>
    rw [Member.announce_eq]
    rfl
  | ban s => by_cases hs : r = s <;> simp [hs]
  | appoint s => by_cases hs : r = s <;> simp [hs]

theorem Room.Filed.move (h : ∀ r, (w.roomAt r).Filed) (hm : Move env c w₀ S w w') :
    ∀ r, (w'.roomAt r).Filed := by
  have hsame : (∀ r, (w'.roomAt r).membersInfo = (w.roomAt r).membersInfo) → ∀ r, (w'.roomAt r).Filed := by
    intro he r
    unfold Room.Filed
    rw [he r]
    exact h r
  cases hm with
  | quiet hq => exact hsame hq.membersInfo
  | hang => exact h
  | issue s => exact hsame fun r => by by_cases hs : r = s <;> simp [World.issue, hs]
  | enter s => exact hsame fun r => by by_cases hs : r = s <;> simp [World.enter, hs]
  | leave s => exact fun r => (Thins.leaveRoom w c s).filed r (h r)
  | kick s m => exact fun r => (Thins.kickMember w s m).filed r (h r)
  | banKick s m nick =>
    intro r
    refine (Thins.kickMember _ s m).filed r ?_
    by_cases hs : r = s
    · subst hs
      simpa [Room.Filed] using h r
    · simpa [hs] using h r
  | create name =>
    intro r
    by_cases hr : r = ⟨w.nextRoom⟩
    · subst hr
      intro uid info hi
      simp [World.found] at hi
    · simpa [World.found, hr] using h r
  | raze s name => exact fun r => (Thins.removeRoom w name).filed r (h r)
  | revive t k p => exact fun r => (Thins.reviveClient _ c t).filed r (h r)

theorem Room.Filed.routine (hw : WF env w) (h : ∀ r, (w.roomAt r).Filed) (hr : Routine env w w') :
    ∀ r, (w'.roomAt r).Filed := by
  cases hr with
  | clock | mark => exact h
  | opening k draws =>
    have hconnect : ∀ w₁ : World, (∀ r, (w₁.roomAt r).Filed) →
        ∀ r, ((connect env w₁ k draws).roomAt r).Filed := fun w₁ h₁ r => by
      rw [(ClientsManager.connect_heap env w₁ k draws).2]
      exact h₁ r
    rcases Server.onOpen_cases env hw k draws with ⟨-, he⟩ | ⟨-, ⟨-, he⟩ | ⟨d, -, -, -, -, he⟩⟩
    · rw [he]
      exact h
    · rw [he]
      exact hconnect _ h
    · rw [he]
      exact hconnect _ fun r => (Thins.remove (w.arrival env k) d).filed r (h r)
  | ping d =>
    rw [Client.sendPacket_eq]
    exact h
  | orphan d => exact fun r => (Thins.makeOrphan w d).filed r (h r)
  | drop d => exact fun r => (Thins.remove w d).filed r (h r)

theorem Room.Filed.chore (hw : WF env w) (h : ∀ r, (w.roomAt r).Filed) (hc : Chore env w w') :
    ∀ r, (w'.roomAt r).Filed := by
  cases hc with
  | routine hr => exact Room.Filed.routine hw h hr
  | save => exact h
  | restart =>
    refine Server.deserialize_roomAt Room.deserialize_filed (w := w.fresh) ?_ w.disk
    intro r uid info hi
    cases hi

theorem filed_run (env : Env) (es : List Event) : ∀ r, ((run env es).roomAt r).Filed :=
  run_invariant (P := fun w => ∀ r, (w.roomAt r).Filed) (fun _ _ _ hi => by cases hi)
    (fun _ _ _ _ _ h hm => Room.Filed.move h hm) (fun _ _ hw h hc => Room.Filed.chore hw h hc) es

end

/-- In every run, what a server saves another one loads: every room can be read, the loaded
rooms are the saved ones with all that persists and without members, and they are saved again
as the same rooms, though maybe in another order. -/
theorem run_reload_lossless (env : Env) (es : List Event) (w₁ : World) :
    let w := run env es
    let w' := Server.deserialize w₁ (Server.serialize w)
    (∃ rooms, (Server.serialize w).get (utf8 "rooms") = .ok rooms ∧
      ∀ val ∈ rooms.items, ∃ rm, Room.deserialize val = .ok rm) ∧
    (∀ r ∈ w.rooms, ∃ r' ∈ w'.rooms, Room.SameRecord (w.roomAt r) (w'.roomAt r')) ∧
    (∀ r' ∈ w'.rooms, ∃ r ∈ w.rooms, Room.SameRecord (w.roomAt r) (w'.roomAt r')) ∧
    (∀ r ∈ w'.rooms, ∀ s ∈ w'.rooms, (w'.roomAt r).name = (w'.roomAt s).name → r = s) ∧
    (∀ r ∈ w'.rooms, (w'.roomAt r).members = ∅) ∧
    ∃ rooms rooms', (Server.serialize w).get (utf8 "rooms") = .ok rooms ∧
      (Server.serialize w').get (utf8 "rooms") = .ok rooms' ∧
      ∃ vals, vals.Perm rooms'.items ∧ List.Forall₂ Json.SameRoom rooms.items vals := by
  intro w w'
  have hlinked : w.membership.Linked := (wf_run env es).linked
  have hsame : ∀ r, Room.SameRecord (w.roomAt r) (w.roomAt r).reloaded := fun r =>
    (filed_run env es r).sameRecord
  obtain ⟨hrooms, -⟩ := Server.deserialize_rooms w₁ w
  change (w'.rooms.elems.map w'.roomAt).Perm _ at hrooms
  obtain ⟨rooms, hget, hitems⟩ := Server.rooms_serialize w
  obtain ⟨rooms', hget', hitems'⟩ := Server.rooms_serialize w'
  have hback : ∀ r' ∈ w'.rooms, ∃ r ∈ w.rooms, (w.roomAt r).reloaded = w'.roomAt r' := by
    intro r' hr'
    have hin : w'.roomAt r' ∈ w'.rooms.elems.map w'.roomAt := List.mem_map.mpr ⟨r', hr', rfl⟩
    exact List.mem_map.mp (hrooms.mem_iff.mp hin)
  refine ⟨⟨rooms, hget, ?_⟩, ?_, ?_, ?_, ?_, rooms, rooms', hget, hget',
    (w.rooms.elems.map fun r => (w.roomAt r).reloaded).map Room.serialize, ?_, ?_⟩
  · intro val hval
    rw [hitems] at hval
    obtain ⟨rm, -, rfl⟩ := List.mem_map.mp hval
    exact ⟨_, Room.deserialize_serialize rm⟩
  · intro r hr
    have hin : (w.roomAt r).reloaded ∈ w.rooms.elems.map fun r => (w.roomAt r).reloaded :=
      List.mem_map.mpr ⟨r, hr, rfl⟩
    obtain ⟨r', hr', he⟩ := List.mem_map.mp (hrooms.mem_iff.mpr hin)
    exact ⟨r', hr', he ▸ hsame r⟩
  · intro r' hr'
    obtain ⟨r, hr, he⟩ := hback r' hr'
    exact ⟨r, hr, he ▸ hsame r⟩
  · have hnames : (w'.rooms.elems.map fun r => (w'.roomAt r).name).Nodup := by
      have hp : (w'.rooms.elems.map fun r => (w'.roomAt r).name).Perm
          (w.rooms.elems.map fun r => (w.roomAt r).name) := by
        have := hrooms.map Room.name
        simpa [List.map_map, Function.comp_def, Room.reloaded] using this
      exact hp.nodup_iff.mpr (w.rooms.nodup.map_on fun r hr s hs => hlinked.names r hr s hs)
    intro r hr s hs he
    exact List.inj_on_of_nodup_map hnames hr hs he
  · intro r' hr'
    obtain ⟨r, -, he⟩ := hback r' hr'
    rw [← he]
    rfl
  · rw [hitems']
    exact (hrooms.map Room.serialize).symm
  · rw [hitems, List.forall₂_map_left_iff, List.forall₂_map_left_iff,
      List.forall₂_map_right_iff, List.forall₂_map_right_iff, List.forall₂_same]
    exact fun r _ => (hsame r).serialize

end WsChat
