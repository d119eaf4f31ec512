import WsChat.Feats

/-! What one step may do to the record of a room: its name, its owner, its lists and the profiles it stores. -/
namespace WsChat
open Lib Relation ClientsManager

def World.Files (w : World) (r : RoomPtr) (infos : AList fun _ : UInt32 => MemberInfo) : Prop :=
  ∀ uid info, infos.lookup uid = some info → (w.roomAt r).membersInfo.lookup uid = some info ∨
    uid ≠ 0 ∧ ∃ m ∈ (w.roomAt r).members, info = MemberInfo.ofMember w m ∧ info.userId = uid

structure World.Lists (w : World) (r : RoomPtr) (admin : Bool) (rm : Room) : Prop where
  present : admin = true → ∃ m ∈ (w.roomAt r).members, Member.isAdmin w m
  bannedNicks : Revised admin 100 (w.roomAt r).bannedNicks rm.bannedNicks
  bannedIps : Revised admin 100 (w.roomAt r).bannedIps rm.bannedIps
  bannedUids : Revised admin 100 (w.roomAt r).bannedUids rm.bannedUids
  moderators : Revised admin 10 (w.roomAt r).moderators rm.moderators

/-- The record of a room goes on. -/
structure World.Keeping (w : World) (r : RoomPtr) (rm : Room) : Prop where
  name : rm.name = (w.roomAt r).name
  ownerId : rm.ownerId = (w.roomAt r).ownerId
  infos : w.Files r rm.membersInfo
  lists : ∃ admin, w.Lists r admin rm
  guest : 0 ∈ rm.moderators → 0 ∈ (w.roomAt r).moderators

/-- A room that was just created by an account. -/
def Room.Fresh (rm : Room) : Prop :=
  ∃ (name : Bytes) (uid : UInt32), Rx.roomName.fullMatch name ∧ uid ≠ 0 ∧ rm = { name := name, ownerId := uid }

/-- Every listed room goes on or is a fresh one. The file stays. -/
structure Upkeep (w w' : World) : Prop where
  rooms : ∀ r ∈ w'.rooms, r ∈ w.rooms ∧ w.Keeping r (w'.roomAt r) ∨ (w'.roomAt r).Fresh
  disk : w'.disk = w.disk

structure Stays (w w' : World) : Prop where
  members : ∀ r, ∀ m ∈ (w'.roomAt r).members, m ∈ (w.roomAt r).members ∧ w'.memberAt m = w.memberAt m
  clients : ∀ d, ∃ rooms, w'.clientAt d = { w.clientAt d with rooms := rooms }

section
variable {env : Env} {w w' : World} {c t : ClientPtr} {k : ConnectionPtr} {r s : RoomPtr} {m : MemberPtr} {rm : Room}
  {gone : List ClientPtr}

theorem Frame.members_iff (hf : Frame w w') : m ∈ (w'.roomAt r).members ↔ m ∈ (w.roomAt r).members :=
  Set.ext_iff.mp (congrFun (congrArg Membership.members hf.membership) r) m

theorem Frame.who (hf : Frame w w') (m : MemberPtr) : (w'.memberAt m).client = (w.memberAt m).client :=
  congrFun (congrArg Membership.who hf.membership) m

theorem World.Files.same (h : rm.membersInfo = (w.roomAt r).membersInfo) : w.Files r rm.membersInfo := by
  intro uid info hi
  rw [h] at hi
  exact .inl hi

theorem World.Files.departed (h : Departed r gone w w') : w.Files r (w'.roomAt r).membersInfo := by
  intro uid info hi
  rw [h.filed, lookup_writeAll] at hi
  cases hlast : lastWrite MemberInfo.userId (w.parting r gone) uid with
  | none =>
    rw [hlast, Option.none_or] at hi
    exact .inl hi
  | some info' =>
    rw [hlast, Option.some_or] at hi
    cases hi
    obtain ⟨hparting, huid⟩ := mem_of_lastWrite hlast
    obtain ⟨hinfo, haccount⟩ := List.mem_filter.mp hparting
    obtain ⟨m, hm, rfl⟩ := List.mem_map.mp hinfo
    obtain ⟨d, -, hd⟩ := List.mem_filterMap.mp hm
    have haccount : (MemberInfo.ofMember w m).userId ≠ 0 := by simpa using haccount
    exact .inr ⟨huid ▸ haccount, m, (Room.mem_of_findMemberByClient hd).1, rfl, huid⟩

theorem World.Lists.same (hnicks : rm.bannedNicks = (w.roomAt r).bannedNicks)
    (hips : rm.bannedIps = (w.roomAt r).bannedIps) (huids : rm.bannedUids = (w.roomAt r).bannedUids)
    (hmods : rm.moderators = (w.roomAt r).moderators) : w.Lists r false rm := by
  refine ⟨nofun, ?_, ?_, ?_, ?_⟩
  · exact hnicks ▸ .same
  · exact hips ▸ .same
  · exact huids ▸ .same
  · exact hmods ▸ .same

theorem World.Keeping.of_rules (hname : rm.name = (w.roomAt r).name) (howner : rm.ownerId = (w.roomAt r).ownerId)
    (hmods : rm.moderators = (w.roomAt r).moderators) (hnicks : rm.bannedNicks = (w.roomAt r).bannedNicks)
    (hips : rm.bannedIps = (w.roomAt r).bannedIps) (huids : rm.bannedUids = (w.roomAt r).bannedUids)
    (hfiles : w.Files r rm.membersInfo) : w.Keeping r rm := by
  refine ⟨hname, howner, hfiles, ⟨false, .same hnicks hips huids hmods⟩, fun h => ?_⟩
  rw [hmods] at h
  exact h

theorem World.Keeping.thin (ht : Thins w w') (hfiles : w.Files r (w'.roomAt r).membersInfo) :
    w.Keeping r (w'.roomAt r) := by
  obtain ⟨hname, howner, hmods, hnicks, hips, huids⟩ := ht.room r
  exact .of_rules hname howner hmods hnicks hips huids hfiles

theorem World.Keeping.same (h : rm = w.roomAt r) : w.Keeping r rm := by
  subst h
  exact .of_rules rfl rfl rfl rfl rfl rfl (.same rfl)

theorem Upkeep.of_rooms (hrooms : w'.rooms = w.rooms) (hdisk : w'.disk = w.disk)
    (h : ∀ r, w.Keeping r (w'.roomAt r)) : Upkeep w w' := by
  refine ⟨fun r hr => ?_, hdisk⟩
  rw [hrooms] at hr
  exact .inl ⟨hr, h r⟩

theorem Upkeep.idle (hrooms : w'.rooms = w.rooms) (hdisk : w'.disk = w.disk) (hroom : w'.roomAt = w.roomAt) :
    Upkeep w w' := .of_rooms hrooms hdisk fun r => .same (congrFun hroom r)

theorem Upkeep.modifyRoom {f : Room → Room} (h : w.Keeping s (f (w.roomAt s))) : Upkeep w (w.modifyRoom s f) := by
  refine .of_rooms rfl rfl fun r => ?_
  by_cases hr : r = s
  · subst hr
    simpa using h
  · exact .same (by simp [hr])

theorem Upkeep.emit (h : Upkeep w w') (out : List (ConnectionPtr × Wire)) : Upkeep w (w'.emit out) :=
  ⟨h.rooms, h.disk⟩

theorem Upkeep.of_departed (hrooms : w'.rooms = w.rooms) (hdisk : w'.disk = w.disk) (ht : Thins w w')
    (hd : ∀ r, ∃ gone, Departed r gone w w') : Upkeep w w' := by
  refine .of_rooms hrooms hdisk fun r => ?_
  obtain ⟨gone, hgone⟩ := hd r
  exact .thin ht (.departed hgone)

theorem World.Holds.admin (hm : w.Holds c r m) (h : (w.clientAt c).isAdmin = true) :
    ∃ m ∈ (w.roomAt r).members, Member.isAdmin w m := by
  refine ⟨m, hm.mem, ?_⟩
  unfold Member.isAdmin
  rw [hm.client]
  exact h

theorem Still.upkeep (h : Still env c w w') : Upkeep w w' := by
  cases h with
  | answer | list | touch | whisper | presence | typing | dress | rename => exact .idle rfl rfl rfl
  | restyle =>
    rw [Member.announce_eq]
    exact .idle rfl rfl rfl
  | say r =>
    rw [Room.say_eq]
    exact (Upkeep.modifyRoom (.of_rules rfl rfl rfl rfl rfl rfl (.same rfl))).emit _
  | ban r m nicks ips uids hm _ hnicks hips huids =>
    refine .modifyRoom ⟨rfl, rfl, .same rfl, ⟨(w.clientAt c).isAdmin, ?_⟩, id⟩
    exact ⟨hm.admin, hnicks, hips, huids, .same⟩
  | appoint r m moderators hm _ hmods hguest =>
    refine .modifyRoom ⟨rfl, rfl, .same rfl, ⟨(w.clientAt c).isAdmin, ?_⟩, hguest⟩
    exact ⟨hm.admin, .same, .same, .same, hmods⟩

theorem Still.client (h : Still env c w w') (d : ClientPtr) : ∃ packetTime messageTime messageCounter,
    w'.clientAt d = { w.clientAt d with
      lastPacketTime := packetTime, lastMessageTime := messageTime, messageCounter := messageCounter } := by
  cases h with
  | answer | list | whisper | presence | typing | ban | appoint | dress | rename => exact ⟨_, _, _, rfl⟩
  | touch packetTime messageTime messageCounter =>
    by_cases hd : d = c
    · subst hd
      exact ⟨packetTime, messageTime, messageCounter, by simp⟩
    · exact ⟨(w.clientAt d).lastPacketTime, (w.clientAt d).lastMessageTime, (w.clientAt d).messageCounter, by simp [hd]⟩
  | say r =>
    rw [Room.say_eq]
    exact ⟨_, _, _, rfl⟩
  | restyle =>
    rw [Member.announce_eq]
    exact ⟨_, _, _, rfl⟩

theorem Feat.upkeep (hl : w.membership.Linked) (h : Feat env c w w') : Upkeep w w' := by
  cases h with
  | still hs => exact hs.upkeep
  | hang => exact .idle rfl rfl rfl
  | refuse s id =>
    refine .of_rooms rfl rfl fun r => ?_
    by_cases hr : r = s
    · subst hr
      have hroom : (w.issue c r id).roomAt r = { w.roomAt r with nextMemberId := id } := by simp [World.issue]
      rw [hroom]
      exact .of_rules rfl rfl rfl rfl rfl rfl (.same rfl)
    · exact .same (by simp [World.issue, hr])
  | leave s hs =>
    obtain ⟨m, hm⟩ := Room.findMemberByClient_isSome hl hs
    refine .of_departed ?_ ?_ (Thins.leaveRoom w c s) fun r => ?_
    · rw [Client.leaveRoom_eq hs hm]
      rfl
    · rw [Client.leaveRoom_eq hs hm]
      rfl
    · by_cases hr : r = s
      · subst hr
        exact ⟨[c], .leaveRoom hl hs⟩
      · exact ⟨[], .leaveRoom_other hl hs hr⟩
  | kick s m m2 =>
    have hthin : Thins w (Room.kickMember env w s m2) := .kickMember w s m2
    rw [Room.kickMember_eq] at hthin ⊢
    refine .of_rooms rfl rfl fun r => .thin hthin (.same ?_)
    by_cases hr : r = s
    · subst hr
      simp
    · simp [hr]
  | create name hfull _ huid =>
    refine ⟨fun r hr => ?_, rfl⟩
    by_cases hnew : r = ⟨w.nextRoom⟩
    · subst hnew
      exact .inr ⟨name, (w.clientAt c).uid, hfull, huid, by simp [World.found]⟩
    · cases IterSet.mem_insert.mp hr with
      | inl he => exact absurd he hnew
      | inr hold => exact .inl ⟨hold, .same (by simp [World.found, hnew])⟩
  | raze s name hs =>
    obtain ⟨info, out, -, he⟩ := Server.removeRoom_eq env hl hs
    rw [he]
    refine ⟨fun r hr => ?_, rfl⟩
    obtain ⟨hne, hold⟩ := IterSet.mem_erase.mp hr
    exact .inl ⟨hold, .same (by simp [hne])⟩

theorem World.rooms_update (w : World) (c d : ClientPtr) (rooms : IterSet RoomPtr) :
    ∃ rooms', Function.update w.clientAt c { w.clientAt c with rooms := rooms } d =
      { w.clientAt d with rooms := rooms' } := by
  by_cases hd : d = c
  · subst hd
    exact ⟨rooms, by simp⟩
  · exact ⟨(w.clientAt d).rooms, by simp [hd]⟩

theorem Feat.stays (hl : w.membership.Linked) (h : Feat env c w w') : Still env c w w' ∨ Stays w w' := by
  cases h with
  | still hs => exact .inl hs
  | hang => exact .inr ⟨fun r m hm => ⟨hm, rfl⟩, fun d => ⟨_, rfl⟩⟩
  | refuse s id =>
    refine .inr ⟨fun r m hm => ?_, fun d => ⟨_, rfl⟩⟩
    have hold : m ∈ (w.roomAt r).members := by
      by_cases hr : r = s
      · subst hr
        simpa [World.issue] using hm
      · simpa [World.issue, hr] using hm
    have hne : m ≠ ⟨w.nextMember⟩ := hl.ne_of_mem w.not_issued m hold
    exact ⟨hold, by simp [World.issue, hne]⟩
  | leave s hs =>
    have hthin : Thins w (Client.leaveRoom env w c s) := .leaveRoom w c s
    obtain ⟨m, hfind⟩ := Room.findMemberByClient_isSome hl hs
    rw [Client.leaveRoom_eq hs hfind] at hthin ⊢
    exact .inr ⟨fun r n hn => ⟨hthin.members r n hn, rfl⟩, fun d => w.rooms_update c d _⟩
  | kick s m m2 =>
    have hthin : Thins w (Room.kickMember env w s m2) := .kickMember w s m2
    rw [Room.kickMember_eq] at hthin ⊢
    exact .inr ⟨fun r n hn => ⟨hthin.members r n hn, rfl⟩, fun d => w.rooms_update _ d _⟩
  | create name =>
    refine .inr ⟨fun r m hm => ⟨?_, rfl⟩, fun d => ⟨_, rfl⟩⟩
    by_cases hnew : r = ⟨w.nextRoom⟩
    · subst hnew
      simp [World.found] at hm
    · simpa [World.found, hnew] using hm
  | raze s name hs =>
    have hthin : Thins w (Server.removeRoom env w name) := .removeRoom w name
    obtain ⟨info, out, -, he⟩ := Server.removeRoom_eq env hl hs
    rw [he] at hthin ⊢
    refine .inr ⟨fun r n hn => ⟨hthin.members r n hn, rfl⟩, fun d => ?_⟩
    dsimp only
    split
    · exact ⟨_, rfl⟩
    · exact ⟨_, rfl⟩

theorem Upkeep.reviveClient (hl : w.membership.Linked) (hct : c ≠ t) (hk : (w.clientAt c).connection = some k) :
    Upkeep w (Server.reviveClient env w c t).1 := by
  obtain ⟨manager, clamped, closing, he⟩ := Server.reviveClient_normal env hl hct hk
  refine .of_departed ?_ ?_ (Thins.reviveClient w c t) fun r => ⟨[c], .reviveClient env hl hct hk⟩
  · rw [he]
    rfl
  · rw [he]
    rfl

theorem Upkeep.enter (w : World) (c : ClientPtr) (s : RoomPtr) (id : UInt32) : Upkeep w (w.enter c s id) := by
  refine .of_rooms rfl rfl fun r => ?_
  by_cases hr : r = s
  · subst hr
    have hroom : (w.enter c r id).roomAt r = { w.roomAt r with
        nextMemberId := id, members := (w.roomAt r).members.insert ⟨w.nextMember⟩ w.order.members } := by
      simp [World.enter]
    rw [hroom]
    exact .of_rules rfl rfl rfl rfl rfl rfl (.same rfl)
  · exact .same (by simp [World.enter, hr])

theorem Upkeep.remove (hl : w.membership.Linked) (c : ClientPtr) : Upkeep w (remove env w c) := by
  have hnormal : ∃ manager clamped, ClientsManager.remove env w c =
      { w.withdraw c with manager := manager, clamped := clamped } := remove_normal hl
  obtain ⟨manager, clamped, he⟩ := hnormal
  refine .of_departed ?_ ?_ (Thins.remove w c) fun r => ⟨[c], .remove hl c⟩
  · rw [he]
    rfl
  · rw [he]
    rfl

theorem Upkeep.makeOrphan (hw : WF env w) (hc : c ∈ w.manager.clients) : Upkeep w (makeOrphan env w c) := by
  have hgone : ∀ r, ∃ gone, Departed r gone w (ClientsManager.makeOrphan env w c) := fun r => ⟨[], .makeOrphan hw hc⟩
  have hthin : Thins w (ClientsManager.makeOrphan env w c) := .makeOrphan w c
  cases hk : (w.clientAt c).connection with
  | none =>
    have hsame : ClientsManager.makeOrphan env w c = w := by
      unfold ClientsManager.makeOrphan
      rw [hk]
    rw [hsame]
    exact .idle rfl rfl rfl
  | some k =>
    obtain ⟨manager, clamped, he⟩ := ClientsManager.makeOrphan_normal hw.indexed hw.linked hc hk
    rw [he] at hgone hthin ⊢
    exact .of_departed rfl rfl hthin hgone

theorem Upkeep.connect (w : World) (k : ConnectionPtr) (draws : List Token) : Upkeep w (connect env w k draws) := by
  refine .idle ?_ ?_ (connect_heap env w k draws).2
  · unfold ClientsManager.connect
    split <;> rfl
  · unfold ClientsManager.connect
    split <;> rfl

end
end WsChat
