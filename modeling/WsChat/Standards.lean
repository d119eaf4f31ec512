import WsChat.Upkeep

/-! What the server keeps about rooms, members and clients is well formed in every run, in memory and in the saved
file. -/
namespace WsChat
open Lib Relation ClientsManager

def Painted (color : Bytes) : Prop := color ∈ PacketAuth.colors ∨ CommandColor.Hex color

/-- The name is a room name, the owner and the moderators have accounts, and so have the stored profiles. -/
structure Room.Proper (rm : Room) : Prop where
  name : Rx.roomName.fullMatch rm.name
  ownerId : rm.ownerId ≠ 0
  moderators : 0 ∉ rm.moderators
  infos : ∀ uid info, rm.membersInfo.lookup uid = some info → uid ≠ 0 ∧ info.userId = uid ∧ Painted info.color

structure World.Proper (w : World) : Prop where
  rooms : ∀ r ∈ w.rooms, (w.roomAt r).Proper
  members : ∀ r, ∀ m ∈ (w.roomAt r).members, Painted (w.memberAt m).color
  clients : ∀ d, Painted (w.clientAt d).color
  disk : w.Stored Room.Proper

/-- No account of the database is in a group with a negative id. -/
structure AuthServices.Grouped (sv : AuthServices) : Prop where
  uid : ∀ uid info, sv.getUserByUid uid = .ok (some info) → 0 ≤ info.gid
  login : ∀ login password info, sv.getUserByLoginAndPassword login password = .ok (some info) → 0 ≤ info.gid

section
variable {env : Env} {w w' : World} {c t : ClientPtr} {k : ConnectionPtr} {r : RoomPtr} {m : MemberPtr} {rm : Room}
  {sv : AuthServices}

theorem PacketAuth.Proved.grouped {sinid : Option Bytes} {p : PacketAuth} {info : DbUserInfo} (h : sv.Grouped)
    (hp : p.Proved env sv sinid info) : 0 ≤ info.gid := by
  cases hp with
  | account uid info _ _ hfound => exact h.uid uid info hfound
  | password info _ _ _ hfound => exact h.login p.name p.password info hfound

theorem painted_gray : Painted (utf8 "gray") := .inl (List.mem_cons_self ..)

theorem PacketAuth.painted {gid : Int} (h : 0 ≤ gid) : Painted (PacketAuth.color env gid) := by
  unfold PacketAuth.color
  rw [if_neg (Int.not_lt.mpr h)]
  left
  have hlen : PacketAuth.colors.length = 5 := rfl
  have hlt : (if gid < 5 then gid.toNat else 2) < PacketAuth.colors.length := by
    rw [hlen]
    split <;> omega
  rw [List.getD_eq_getElem?_getD, List.getElem?_eq_getElem hlt, Option.getD_some]
  exact List.getElem_mem hlt

theorem Room.Proper.filed (h : rm.Proper) : rm.Filed := fun uid info hi => (h.infos uid info hi).2.1

theorem Room.Proper.reloaded (h : rm.Proper) : rm.reloaded.Proper := by
  have hsame := h.filed.sameRecord
  refine ⟨h.name, h.ownerId, h.moderators, fun uid info hi => ?_⟩
  rw [hsame.membersInfo uid] at hi
  exact h.infos uid info hi

theorem Room.Fresh.proper (h : rm.Fresh) : rm.Proper := by
  obtain ⟨name, uid, hfull, huid, rfl⟩ := h
  exact ⟨hfull, huid, IterSet.not_mem_empty 0, fun uid info hi => by cases hi⟩

theorem World.Keeping.proper (h : w.Keeping r rm) (hr : (w.roomAt r).Proper)
    (hmembers : ∀ m ∈ (w.roomAt r).members, Painted (w.memberAt m).color) : rm.Proper := by
  refine ⟨?_, ?_, fun h0 => hr.moderators (h.guest h0), fun uid info hi => ?_⟩
  · rw [h.name]
    exact hr.name
  · rw [h.ownerId]
    exact hr.ownerId
  · cases h.infos uid info hi with
    | inl hold => exact hr.infos uid info hold
    | inr hnew =>
      obtain ⟨huid, m, hm, rfl, hinfo⟩ := hnew
      exact ⟨huid, hinfo, hmembers m hm⟩

theorem World.Proper.upkeep (h : w.Proper) (hu : Upkeep w w')
    (hmembers : ∀ r, ∀ m ∈ (w'.roomAt r).members, Painted (w'.memberAt m).color)
    (hclients : ∀ d, Painted (w'.clientAt d).color) : w'.Proper := by
  refine ⟨fun r hr => ?_, hmembers, hclients, ?_⟩
  · cases hu.rooms r hr with
    | inl hold => exact hold.2.proper (h.rooms r hold.1) (h.members r)
    | inr hnew => exact hnew.proper
  · unfold World.Stored
    rw [hu.disk]
    exact h.disk

theorem World.Proper.thin (h : w.Proper) (hu : Upkeep w w') (ht : Thins w w')
    (hclients : ∀ d, Painted (w'.clientAt d).color) : w'.Proper := by
  refine h.upkeep hu (fun r m hm => ?_) hclients
  obtain ⟨stat, seen, hmember, -⟩ := ht.member m
  rw [hmember]
  exact h.members r m (ht.members r m hm)

theorem World.Proper.emit (h : w.Proper) (out : List (ConnectionPtr × Wire)) : (w.emit out).Proper :=
  ⟨h.rooms, h.members, h.clients, h.disk⟩

theorem World.Proper.stored (h : w.Proper) (hl : w.membership.Linked) (hm : w.Holds c r m) {info : MemberInfo}
    (hi : Room.getStoredMemberInfo w r m = some info) : Painted info.color := by
  unfold Room.getStoredMemberInfo at hi
  dsimp only at hi
  split at hi
  · cases hi
  · exact ((h.rooms r (hl.listed r m hm.mem)).infos _ info hi).2.2

theorem Still.painted (h : w.Proper) (hl : w.membership.Linked) (hs : Still env c w w') (n : MemberPtr)
    (hn : Painted (w.memberAt n).color) : Painted (w'.memberAt n).color := by
  have hset : ∀ (m : MemberPtr) (f : Member → Member), Painted (f (w.memberAt m)).color →
      Painted ((w.modifyMember m f).memberAt n).color := by
    intro m f hf
    by_cases hnm : n = m
    · subst hnm
      simpa using hf
    · simpa [hnm] using hn
  cases hs with
  | answer | list | touch | whisper | typing | ban | appoint => exact hn
  | say r =>
    rw [Room.say_eq]
    exact hn
  | presence r m stat =>
    by_cases hnm : n = m
    · subst hnm
      simpa [Member.setStatus] using hn
    · simpa [Member.setStatus, hnm] using hn
  | restyle r m girl color stat hm hcolor =>
    rw [Member.announce_eq]
    refine hset m (fun mem => { mem with girl := girl, color := color }) ?_
    cases hcolor with
    | inl hsame =>
      rw [hsame]
      exact h.members r m hm.mem
    | inr hhex => exact .inr hhex
  | dress r m girl color hm hcolor =>
    refine hset m (fun mem => { mem with girl := girl, color := color }) ?_
    cases hcolor with
    | inl hsame =>
      rw [hsame]
      exact h.clients c
    | inr hstored =>
      obtain ⟨info, hi, hsame⟩ := hstored
      rw [hsame]
      exact h.stored hl hm hi
  | rename r m nick hm => exact hset m (fun mem => { mem with nick := nick }) (h.members r m hm.mem)

theorem World.Proper.feat (h : w.Proper) (hl : w.membership.Linked) (hf : Feat env c w w') : w'.Proper := by
  have hu := hf.upkeep hl
  cases hf.stays hl with
  | inl hs =>
    refine h.upkeep hu (fun r n hn => ?_) fun d => ?_
    · exact hs.painted h hl n (h.members r n (hs.frame.members_iff.mp hn))
    · obtain ⟨packetTime, messageTime, messageCounter, hd⟩ := hs.client d
      rw [hd]
      exact h.clients d
  | inr hs =>
    refine h.upkeep hu (fun r n hn => ?_) fun d => ?_
    · obtain ⟨hold, hsame⟩ := hs.members r n hn
      rw [hsame]
      exact h.members r n hold
    · obtain ⟨rooms, hd⟩ := hs.clients d
      rw [hd]
      exact h.clients d

theorem World.Proper.feats (h : w.Proper) (hw : WF env w) (hf : Feats env c w w') : w'.Proper :=
  Feats.keep (P := World.Proper) (fun _ _ hw hp hfeat => hp.feat hw.linked hfeat) hf hw h

theorem World.Proper.login (h : w.Proper) (c : ClientPtr) {user : DbUserInfo} (hgid : 0 ≤ user.gid) :
    (PacketAuth.initUser env w c user).Proper := by
  refine h.upkeep (.idle rfl rfl rfl) h.members fun d => ?_
  by_cases hd : d = c
  · subst hd
    simpa [PacketAuth.initUser] using PacketAuth.painted hgid
  · simpa [PacketAuth.initUser, hd] using h.clients d

theorem World.Proper.enter (h : w.Proper) (hl : w.membership.Linked) (c : ClientPtr) (r : RoomPtr) (id : UInt32) :
    (w.enter c r id).Proper := by
  refine h.upkeep (.enter w c r id) (fun s m hm => ?_) fun d => ?_
  · cases World.mem_enter.mp hm with
    | inl hold =>
      rw [World.memberAt_enter_old hl hold]
      exact h.members s m hold
    | inr hnew =>
      rw [hnew.2, World.memberAt_enter_new]
      exact painted_gray
  · obtain ⟨rooms, hd⟩ := w.rooms_update c d ((w.clientAt c).rooms.insert r w.order.connectedRooms)
    have hsame : (w.enter c r id).clientAt d = { w.clientAt d with rooms := rooms } := hd
    rw [hsame]
    exact h.clients d

theorem World.Proper.reviveClient (h : w.Proper) (hl : w.membership.Linked) (hct : c ≠ t)
    (hk : (w.clientAt c).connection = some k) : (Server.reviveClient env w c t).1.Proper := by
  refine h.thin (.reviveClient hl hct hk) (.reviveClient w c t) fun d => ?_
  obtain ⟨manager, clamped, closing, he⟩ := Server.reviveClient_normal env hl hct hk
  rw [he]
  by_cases hdt : d = t
  · simpa [World.plug, World.withdraw, World.settle, hdt, Ne.symm hct] using h.clients t
  · by_cases hdc : d = c
    · simpa [World.plug, World.withdraw, World.settle, hdc, hct] using h.clients c
    · simpa [World.plug, World.withdraw, World.settle, hdt, hdc] using h.clients d

theorem World.Proper.course {p : Packet} (h : w.Proper) (hw : WF env w) (hsv : sv.Grouped)
    (hc : Course env sv c p w w') : w'.Proper := by
  cases hc with
  | feats hf => exact h.feats hw hf
  | login a user q _ hproved =>
    cases user with
    | none => exact h.emit _
    | some user => exact (h.login c ((hproved user rfl).grouped hsv)).emit _
  | enter r id sequenceId loadHistory hc hr hcr hid ha hs =>
    have hev := (enter_evolves w c r id).then_frame (Frame.emit (w.enter c r id)
      ((w.enter c r id).welcomeMail c r ⟨w.nextMember⟩ sequenceId loadHistory))
    exact ((h.enter hw.linked c r id).emit _).feats
      (hw.relink hev (hw.linked.enter w.not_issued hc hr hcr)) (Stills.feats hs)
  | revive a t k q _ _ _ _ _ hct hk => exact (h.emit _).reviveClient (hw.frame (Frame.emit w _)).linked hct hk

theorem World.Proper.remove (h : w.Proper) (hl : w.membership.Linked) (c : ClientPtr) : (remove env w c).Proper := by
  refine h.thin (.remove hl c) (.remove w c) fun d => ?_
  have hnormal : ∃ manager clamped, ClientsManager.remove env w c =
      { w.withdraw c with manager := manager, clamped := clamped } := remove_normal hl
  obtain ⟨manager, clamped, he⟩ := hnormal
  rw [he]
  by_cases hd : d = c
  · simpa [World.withdraw, hd] using h.clients c
  · simpa [World.withdraw, hd] using h.clients d

theorem World.Proper.makeOrphan (h : w.Proper) (hw : WF env w) (hc : c ∈ w.manager.clients) :
    (makeOrphan env w c).Proper := by
  refine h.thin (.makeOrphan hw hc) (.makeOrphan w c) fun d => ?_
  cases hk : (w.clientAt c).connection with
  | none =>
    have hsame : ClientsManager.makeOrphan env w c = w := by
      unfold ClientsManager.makeOrphan
      rw [hk]
    rw [hsame]
    exact h.clients d
  | some k =>
    obtain ⟨manager, clamped, he⟩ := ClientsManager.makeOrphan_normal hw.indexed hw.linked hc hk
    rw [he]
    by_cases hd : d = c
    · simpa [World.unplug, World.settle, hd] using h.clients c
    · simpa [World.unplug, World.settle, hd] using h.clients d

theorem World.Proper.connect (h : w.Proper) (k : ConnectionPtr) (draws : List Token) :
    (connect env w k draws).Proper := by
  obtain ⟨hmember, hroom⟩ := connect_heap env w k draws
  refine h.upkeep (.connect w k draws) (fun r m hm => ?_) fun d => ?_
  · rw [hroom] at hm
    rw [hmember]
    exact h.members r m hm
  · unfold ClientsManager.connect
    split
    · exact h.clients d
    · by_cases hd : d = ⟨w.nextClient⟩
      · simpa [Client.setConnection, hd] using painted_gray
      · simpa [Client.setConnection, hd] using h.clients d

theorem World.Proper.routine (h : w.Proper) (hw : WF env w) (hr : Routine env w w') : w'.Proper := by
  cases hr with
  | clock | mark => exact ⟨h.rooms, h.members, h.clients, h.disk⟩
  | opening k draws =>
    have harrival : (w.arrival env k).Proper := ⟨h.rooms, h.members, h.clients, h.disk⟩
    rcases Server.onOpen_cases env hw k draws with ⟨-, he⟩ | ⟨-, ⟨-, he⟩ | ⟨c, -, -, -, -, he⟩⟩
    · rw [he]
      exact ⟨h.rooms, h.members, h.clients, h.disk⟩
    · rw [he]
      exact harrival.connect k draws
    · rw [he]
      exact (harrival.remove hw.linked c).connect k draws
  | ping c =>
    rw [Client.sendPacket_eq]
    exact h.emit _
  | orphan c hc => exact h.makeOrphan hw hc
  | drop c => exact h.remove hw.linked c

theorem World.restart_clientAt (w : World) : w.restart.clientAt = w.fresh.clientAt := by
  have hrooms : ∀ l w, (Server.deserializeRooms l w).clientAt = World.clientAt w := by
    intro l
    induction l with
    | nil => exact fun _ => rfl
    | cons val l ih =>
      intro w
      unfold Server.deserializeRooms
      split
      · rename_i w₁ hok
        unfold Server.deserializeRoom at hok
        obtain ⟨rm, -, hok⟩ := Except.bind_ok hok
        cases hok
        exact ih _
      · rfl
  unfold World.restart Server.deserialize
  split
  · exact hrooms _ _
  · rfl

theorem World.Proper.restart (h : w.Proper) (hw : WF env w) : w.restart.Proper := by
  refine ⟨h.disk.restart fun _ hrm => hrm.reloaded, fun r m hm => ?_, fun d => ?_, ?_⟩
  · rw [World.restart_members hw r] at hm
    exact absurd hm (IterSet.not_mem_empty m)
  · rw [World.restart_clientAt]
    exact painted_gray
  · unfold World.Stored
    rw [World.restart_disk hw.saved]
    exact h.disk

theorem World.Proper.chore (h : w.Proper) (hw : WF env w) (hc : Chore env w w') : w'.Proper := by
  cases hc with
  | routine hr => exact h.routine hw hr
  | save => exact ⟨h.rooms, h.members, h.clients, .inr ⟨w, rfl, h.rooms⟩⟩
  | restart => exact h.restart hw

/-- In every run over a database without negative group ids, every room, in memory and in the saved file, has a valid
name, an owner with an account, no guest among its moderators, and no profile of a guest; each profile is stored under
its own account, and every colour of a profile, a member or a client is one of the server's or a hash sign with three
or six hexadecimal digits. -/
theorem run_proper (env : Env) (es : List Event)
    (hgroups : ∀ e ∈ es, ∀ k msg sv, e.act = .message k msg sv → sv.Grouped) : (run env es).Proper := by
  refine run_course_invariant (P := World.Proper) ?_ ?_ ?_
  · refine ⟨fun r hr => absurd hr (IterSet.not_mem_empty r), fun r m hm => absurd hm (IterSet.not_mem_empty m), ?_, .inl rfl⟩
    exact fun _ => painted_gray
  · intro e he k msg sv c p w w' hact hw _ _ _ h hcourse
    exact h.course hw (hgroups e he k msg sv hact) hcourse
  · intro w w' hw h hchore
    exact h.chore hw hchore

end

theorem Sample.grouped (uid : Int) (login : Bytes) : (services uid login).Grouped := by
  have hgid : (0 : Int) ≤ 2 := by omega
  refine ⟨fun _ _ hfound => ?_, fun _ _ info hfound => ?_⟩
  · cases hfound
  · cases hfound
    exact hgid

theorem run_proper_room : (run Sample.surroundings Sample.room).Proper := by
  refine run_proper Sample.surroundings Sample.room fun e he k msg sv hact => ?_
  have hbob : sv = Sample.bob := by
    simp only [Sample.room, List.mem_cons, List.not_mem_nil, or_false] at he
    rcases he with rfl | rfl | rfl | rfl | rfl | rfl | rfl
    all_goals cases hact
    all_goals rfl
  rw [hbob]
  exact Sample.grouped 7 _

end WsChat
