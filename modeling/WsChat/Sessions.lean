import WsChat.Moves
import Mathlib.Data.List.Find

/-! How clients come and go, in normal form: a client that loses its connection, returns, or
is removed changes its members once and sends the packets of each of its rooms in turn. -/
namespace WsChat
open Lib Relation ClientsManager

/-- Only the client registry differs, and the flag for a clamped counter. -/
def Books (w w' : World) : Prop :=
  ∃ manager clamped, w' = { w with manager := manager, clamped := clamped }

namespace Books
variable {w w' w'' : World}

theorem refl (w : World) : Books w w := ⟨w.manager, w.clamped, rfl⟩

theorem trans (h : Books w w') (h' : Books w' w'') : Books w w'' := by
  obtain ⟨_, _, rfl⟩ := h
  obtain ⟨manager, clamped, rfl⟩ := h'
  exact ⟨manager, clamped, rfl⟩

theorem setManager (w : World) (manager : ClientsManager) : Books w { w with manager := manager } :=
  ⟨manager, w.clamped, rfl⟩

theorem decrementForIp (w : World) (ip : Bytes) (field : Field) : Books w (decrementForIp w ip field) := by
  unfold ClientsManager.decrementForIp
  dsimp only
  split <;> split <;> exact ⟨_, _, rfl⟩

theorem countOut (w : World) (c : ClientPtr) : Books w (countOut w c) := by
  unfold ClientsManager.countOut eraseConnection
  cases (w.clientAt c).connection with
  | none => exact refl w
  | some k =>
    cases hlook : (w.manager.connectionToClient.lookup k).isSome <;> simp only [hlook]
    · exact setManager w _
    · exact (setManager w _).trans (decrementForIp _ _ _)

theorem removeFromClients (w : World) (c : ClientPtr) : Books w (removeFromClients w c).1 := by
  unfold ClientsManager.removeFromClients
  split
  · exact setManager w _
  · exact refl w

end Books

def Member.turned (now : Int) (stat : Status) (mem : Member) : Member :=
  { mem with
    lastSeenTime := if stat ≠ mem.status ∧ mem.status = .away then now else mem.lastSeenTime
    status := stat }

theorem Member.setStatus_eq (w : World) (m : MemberPtr) (stat : Status) :
    Member.setStatus w m stat = w.modifyMember m (Member.turned w.now stat) := rfl

/-- The members of a client in some rooms take a status. -/
def World.settle (w : World) (c : ClientPtr) (l : List RoomPtr) (stat : Status) : World :=
  { w with memberAt := fun m =>
      if ∃ r ∈ l, Room.findMemberByClient w r c = some m then Member.turned w.now stat (w.memberAt m)
      else w.memberAt m }

section
variable {w : World} {c : ClientPtr} {l : List RoomPtr} {stat : Status}

theorem World.settle_nil (w : World) (c : ClientPtr) (stat : Status) : w.settle c [] stat = w := by
  simp [World.settle]

theorem World.settle_client (w : World) (c : ClientPtr) (l : List RoomPtr) (stat : Status) (m : MemberPtr) :
    ((w.settle c l stat).memberAt m).client = (w.memberAt m).client := by
  unfold World.settle
  dsimp only
  split <;> rfl

theorem World.findMemberByClient_settle (w : World) (c d : ClientPtr) (l : List RoomPtr) (stat : Status)
    (r : RoomPtr) : Room.findMemberByClient (w.settle c l stat) r d = Room.findMemberByClient w r d :=
  Room.findMemberByClient_congr rfl (World.settle_client w c l stat)

theorem Room.findMemberByClient_setStatus (w : World) (m : MemberPtr) (stat : Status) (r : RoomPtr)
    (d : ClientPtr) : Room.findMemberByClient (Member.setStatus w m stat) r d = Room.findMemberByClient w r d := by
  refine Room.findMemberByClient_congr rfl fun n => ?_
  by_cases hn : n = m
  · subst hn
    simp [Member.setStatus]
  · simp [Member.setStatus, hn]

variable (stat) in
theorem World.settle_cons {r : RoomPtr} {m : MemberPtr} (hr : r ∉ l)
    (hm : Room.findMemberByClient w r c = some m)
    (hhome : ∀ s, ∀ n ∈ (w.roomAt s).members, (w.memberAt n).room = s) :
    w.settle c (r :: l) stat = (Member.setStatus w m stat).settle c l stat := by
  have hin := (Room.mem_of_findMemberByClient hm).1
  have hfind : ∀ s, Room.findMemberByClient (Member.setStatus w m stat) s c =
      Room.findMemberByClient w s c := fun s => Room.findMemberByClient_setStatus w m stat s c
  have hmember : ∀ n, (w.settle c (r :: l) stat).memberAt n =
      ((Member.setStatus w m stat).settle c l stat).memberAt n := by
    intro n
    simp only [World.settle, hfind, List.mem_cons, exists_eq_or_imp]
    by_cases hn : n = m
    · subst hn
      have hno : ¬ ∃ s ∈ l, Room.findMemberByClient w s c = some n := by
        rintro ⟨s, hs, hfound⟩
        have hns := (Room.mem_of_findMemberByClient hfound).1
        exact hr ((hhome r n hin).symm.trans (hhome s n hns) ▸ hs)
      simp [hm, hno, Member.setStatus_eq]
    · have hne : Room.findMemberByClient w r c ≠ some n := by
        rw [hm]
        exact fun he => hn (Option.some.inj he).symm
      simp [hne, Member.setStatus_eq, hn]
  exact congrArg (fun f => { w with memberAt := f }) (funext hmember)

/-- The loop over the rooms of a client changes its members once, and the packets are those of the
world in which it ends. -/
theorem foldl_settle {act : World → RoomPtr → World} {mail : World → RoomPtr → List (ConnectionPtr × Wire)}
    (hact : ∀ w r m, Room.findMemberByClient w r c = some m →
      act w r = (Member.setStatus w m stat).emit (mail (Member.setStatus w m stat) r))
    (hmail : ∀ w w' : World, ∀ r, w'.clientAt = w.clientAt → w'.roomAt = w.roomAt →
      (∀ m ∈ (w.roomAt r).members, w'.memberAt m = w.memberAt m) → mail w' r = mail w r)
    (hl : l.Nodup) (hfind : ∀ r ∈ l, ∃ m, Room.findMemberByClient w r c = some m)
    (hhome : ∀ r, ∀ m ∈ (w.roomAt r).members, (w.memberAt m).room = r) :
    l.foldl act w = (w.settle c l stat).emit (l.flatMap (mail (w.settle c l stat))) := by
  induction l generalizing w with
  | nil => simp [World.settle_nil]
  | cons r l ih =>
    obtain ⟨hr, hl⟩ := List.nodup_cons.mp hl
    obtain ⟨m, hm⟩ := hfind r List.mem_cons_self
    have hsettle := World.settle_cons stat hr hm hhome
    have hfirst : mail (Member.setStatus w m stat) r = mail (w.settle c (r :: l) stat) r := by
      rw [hsettle]
      refine (hmail (Member.setStatus w m stat) ((Member.setStatus w m stat).settle c l stat) r rfl rfl
        fun n hn => ?_).symm
      refine if_neg ?_
      rintro ⟨s, hs, hfound⟩
      have hns := (Room.mem_of_findMemberByClient hfound).1
      exact hr ((hhome r n hn).symm.trans (hhome s n hns) ▸ hs)
    generalize hout : mail (Member.setStatus w m stat) r = out at hfirst
    have hrest := ih (w := (Member.setStatus w m stat).emit out) hl
      (fun s hs => by
        obtain ⟨n, hn⟩ := hfind s (List.mem_cons_of_mem r hs)
        exact ⟨n, (Room.findMemberByClient_setStatus w m stat s c).trans hn⟩)
      (fun s n hn => by
        by_cases hnm : n = m
        · subst hnm
          simpa [Member.setStatus] using hhome s n hn
        · simpa [Member.setStatus, hnm] using hhome s n hn)
    have hcommute : ((Member.setStatus w m stat).emit out).settle c l stat =
        (w.settle c (r :: l) stat).emit out := by
      rw [hsettle]
      rfl
    have hsame : ∀ s, mail ((w.settle c (r :: l) stat).emit out) s = mail (w.settle c (r :: l) stat) s :=
      fun s => hmail _ _ s rfl rfl fun _ _ => rfl
    rw [List.foldl_cons, hact w r m hm, hout, hrest, hcommute, World.emit_emit, funext hsame,
      List.flatMap_cons, ← hfirst]

end

def World.homecoming (w : World) (c : ClientPtr) (r : RoomPtr) : List (ConnectionPtr × Wire) :=
  match Room.findMemberByClient w r c with
  | some m => w.welcomeMail c r m none true ++
      if (w.memberAt m).hasNick then w.roomMail r (.packet (.status (PacketStatus.ofMember w m .back))) else []
  | none => []

def World.orphanMail (w : World) (c : ClientPtr) (r : RoomPtr) : List (ConnectionPtr × Wire) :=
  match Room.findMemberByClient w r c with
  | some m =>
    if (w.memberAt m).hasNick then w.roomMail r (.packet (.status (PacketStatus.ofMember w m .orphan))) else []
  | none => []

section
variable {w w' : World} {c : ClientPtr} {r : RoomPtr}

theorem PacketStatus.ofMember_congr (hc : w'.clientAt = w.clientAt) (hr : w'.roomAt = w.roomAt) {m : MemberPtr}
    (hm : w'.memberAt m = w.memberAt m) (stat : Status) (data : Bytes) :
    PacketStatus.ofMember w' m stat data = PacketStatus.ofMember w m stat data := by
  simp only [PacketStatus.ofMember, Member.isModer, Member.isOwner, Member.isAdmin, hc, hr, hm]

theorem World.roomMail_congr (hc : w'.clientAt = w.clientAt) (hr : w'.roomAt = w.roomAt)
    (hm : ∀ m ∈ (w.roomAt r).members, w'.memberAt m = w.memberAt m) (x : Wire) :
    w'.roomMail r x = w.roomMail r x := by
  unfold World.roomMail World.mail
  rw [hr, hc]
  exact List.flatMap_congr fun m hin => by rw [hm m hin]

theorem PacketOnlineList.ofRoom_congr (hc : w'.clientAt = w.clientAt) (hr : w'.roomAt = w.roomAt)
    (hm : ∀ m ∈ (w.roomAt r).members, w'.memberAt m = w.memberAt m) (sequenceId : Option UInt32) :
    PacketOnlineList.ofRoom w' r sequenceId = PacketOnlineList.ofRoom w r sequenceId := by
  unfold PacketOnlineList.ofRoom
  rw [hr]
  have hfilter : (w.roomAt r).members.elems.filter (fun m => (w'.memberAt m).hasNick) =
      (w.roomAt r).members.elems.filter fun m => (w.memberAt m).hasNick :=
    List.filter_congr fun m hin => by rw [hm m hin]
  rw [hfilter]
  congr 1
  refine List.map_congr_left fun m hin => ?_
  have hin' := hm m (List.mem_of_mem_filter hin)
  rw [hin', PacketStatus.ofMember_congr hc hr hin']

theorem World.findMemberByClient_local (hr : w'.roomAt = w.roomAt)
    (hm : ∀ m ∈ (w.roomAt r).members, w'.memberAt m = w.memberAt m) :
    Room.findMemberByClient w' r c = Room.findMemberByClient w r c := by
  unfold Room.findMemberByClient
  rw [hr]
  exact List.find?_congr fun m hin => by rw [hm m hin]

theorem World.homecoming_congr (hc : w'.clientAt = w.clientAt) (hr : w'.roomAt = w.roomAt)
    (hm : ∀ m ∈ (w.roomAt r).members, w'.memberAt m = w.memberAt m) :
    w'.homecoming c r = w.homecoming c r := by
  unfold World.homecoming
  rw [World.findMemberByClient_local hr hm]
  cases hfind : Room.findMemberByClient w r c with
  | none => rfl
  | some m =>
    have hin := hm m (Room.mem_of_findMemberByClient hfind).1
    simp only [World.welcomeMail, PacketJoin.ofMember, World.mail, hc, hr, hin,
      PacketOnlineList.ofRoom_congr hc hr hm, PacketStatus.ofMember_congr hc hr hin,
      World.roomMail_congr hc hr hm]

theorem World.orphanMail_congr (hc : w'.clientAt = w.clientAt) (hr : w'.roomAt = w.roomAt)
    (hm : ∀ m ∈ (w.roomAt r).members, w'.memberAt m = w.memberAt m) :
    w'.orphanMail c r = w.orphanMail c r := by
  unfold World.orphanMail
  rw [World.findMemberByClient_local hr hm]
  cases hfind : Room.findMemberByClient w r c with
  | none => rfl
  | some m =>
    have hin := hm m (Room.mem_of_findMemberByClient hfind).1
    simp only [hin, PacketStatus.ofMember_congr hc hr hin, World.roomMail_congr hc hr hm]

end

section
variable (env : Env) {w : World} {c t : ClientPtr} {k : ConnectionPtr}

theorem foldl_onReviveRoom {l : List RoomPtr} (hl : l.Nodup)
    (hfind : ∀ r ∈ l, ∃ m, Room.findMemberByClient w r c = some m)
    (hhome : ∀ r, ∀ m ∈ (w.roomAt r).members, (w.memberAt m).room = r) :
    l.foldl (Client.onReviveRoom env c) w =
      (w.settle c l .online).emit (l.flatMap ((w.settle c l .online).homecoming c)) := by
  have hmail : ∀ w w' : World, ∀ r, w'.clientAt = w.clientAt → w'.roomAt = w.roomAt →
      (∀ m ∈ (w.roomAt r).members, w'.memberAt m = w.memberAt m) → w'.homecoming c r = w.homecoming c r :=
    fun _ _ _ hc hr hm => World.homecoming_congr hc hr hm
  refine foldl_settle ?_ hmail hl hfind hhome
  intro w r m hm
  have hfound : Room.findMemberByClient (Member.setStatus w m .online) r c = some m :=
    (Room.findMemberByClient_setStatus w m .online r c).trans hm
  unfold Client.onReviveRoom World.homecoming
  rw [hm, hfound]
  simp only [Client.sendPacket_eq, foldl_sendRawData, World.emit_emit, Room.sendPacketToAll_status]
  simp only [World.welcomeMail, World.mail_emit, World.roomMail_emit, World.emit_memberAt, World.emit_roomAt]
  split <;> simp [List.append_assoc, PacketOnlineList.ofRoom, PacketStatus.ofMember, Member.isOwner,
    Member.isModer, Member.isAdmin]

theorem foldl_onDisconnectRoom {l : List RoomPtr} (hl : l.Nodup)
    (hfind : ∀ r ∈ l, ∃ m, Room.findMemberByClient w r c = some m)
    (hhome : ∀ r, ∀ m ∈ (w.roomAt r).members, (w.memberAt m).room = r) :
    l.foldl (Client.onDisconnectRoom env c) w =
      (w.settle c l .orphan).emit (l.flatMap ((w.settle c l .orphan).orphanMail c)) := by
  have hmail : ∀ w w' : World, ∀ r, w'.clientAt = w.clientAt → w'.roomAt = w.roomAt →
      (∀ m ∈ (w.roomAt r).members, w'.memberAt m = w.memberAt m) → w'.orphanMail c r = w.orphanMail c r :=
    fun _ _ _ hc hr hm => World.orphanMail_congr hc hr hm
  refine foldl_settle ?_ hmail hl hfind hhome
  intro w r m hm
  have hfound : Room.findMemberByClient (Member.setStatus w m .orphan) r c = some m :=
    (Room.findMemberByClient_setStatus w m .orphan r c).trans hm
  unfold Client.onDisconnectRoom World.orphanMail
  rw [hm, hfound]
  simp only [Room.sendPacketToAll_status]
  split <;> simp

end

def World.unplug (w : World) (c : ClientPtr) : World :=
  w.modifyClient c fun cli => { cli with connection := none }

/-- The client leaves its rooms and its connection. -/
def World.withdraw (w : World) (c : ClientPtr) : World :=
  { w with
    clientAt := Function.update w.clientAt c { w.clientAt c with rooms := ∅, connection := none }
    roomAt := fun r => if r ∈ (w.clientAt c).rooms then w.withoutMember c r else w.roomAt r
    sent := w.sent ++ (w.clientAt c).rooms.elems.flatMap (w.farewell c) }

def World.plug (env : Env) (w : World) (t : ClientPtr) (k : ConnectionPtr) : World :=
  w.modifyClient t fun cli => { cli with
    connection := some k, lastClientIP := env.realIp k, lastPacketTime := w.now }

section
variable {env : Env} {w : World} {c t : ClientPtr} {k : ConnectionPtr}

theorem ClientsManager.remove_normal (hl : w.membership.Linked) :
    ∃ manager clamped, remove env w c = { w.withdraw c with manager := manager, clamped := clamped } := by
  have hbooks : ∃ manager clamped, remove env w c =
      Client.onRemove env { w with manager := manager, clamped := clamped } c := by
    rw [ClientsManager.remove_eq]
    have hout := (Books.countOut w c).trans (Books.removeFromClients _ c)
    generalize ClientsManager.removeFromClients (ClientsManager.countOut w c) c = stage at hout ⊢
    obtain ⟨w₁, found⟩ := stage
    cases found with
    | false =>
      obtain ⟨manager, clamped, rfl⟩ := hout
      exact ⟨manager, clamped, rfl⟩
    | true =>
      obtain ⟨manager, clamped, he⟩ := hout.trans (Books.decrementForIp _ (w.clientAt c).lastClientIP .clients)
      exact ⟨manager, clamped, congrArg (Client.onRemove env · c) he⟩
  have hfind : ∀ r ∈ (w.clientAt c).rooms, ∃ m, Room.findMemberByClient w r c = some m :=
    fun r hr => Room.findMemberByClient_isSome hl hr
  obtain ⟨manager, clamped, he⟩ := hbooks
  refine ⟨manager, clamped, ?_⟩
  rw [he, Client.onRemove_eq (w := { w with manager := manager, clamped := clamped }) hfind]
  rfl

theorem ClientsManager.makeOrphan_normal (hi : w.registry.Indexed env) (hl : w.membership.Linked)
    (hc : c ∈ w.manager.clients) (hk : (w.clientAt c).connection = some k) :
    ∃ manager clamped, makeOrphan env w c =
      let w' := { (w.unplug c).settle c (w.clientAt c).rooms.elems .orphan with
        manager := manager, clamped := clamped }
      w'.emit ((w.clientAt c).rooms.elems.flatMap (w'.orphanMail c)) := by
  have hlook : w.manager.connectionToClient.lookup k = some c := (hi.connIff k c).mpr ⟨hc, hk⟩
  unfold ClientsManager.makeOrphan
  simp only [hk, eraseConnection, hlook, Option.isSome_some]
  obtain ⟨manager, clamped, he⟩ := (Books.setManager w { w.manager with
    connectionToClient := w.manager.connectionToClient.erase k }).trans
      (Books.decrementForIp _ (w.clientAt c).lastClientIP .connections)
  refine ⟨manager, clamped, ?_⟩
  rw [he]
  unfold Client.onDisconnect
  dsimp only
  set w₁ : World := Client.setConnection env { w with manager := manager, clamped := clamped } c none with hw₁
  have hrooms : (w₁.clientAt c).rooms = (w.clientAt c).rooms := by simp [hw₁, Client.setConnection]
  have hfind : ∀ r ∈ (w.clientAt c).rooms.elems, ∃ m, Room.findMemberByClient w r c = some m :=
    fun r hr => Room.findMemberByClient_isSome hl hr
  rw [hrooms, foldl_onDisconnectRoom env (w.clientAt c).rooms.nodup (w := w₁) hfind hl.home]
  rfl

variable (env) in
/-- The target of a token is online in its rooms, and the other client is gone. -/
theorem Server.reviveClient_normal (hl : w.membership.Linked) (hct : c ≠ t)
    (hk : (w.clientAt c).connection = some k) :
    ∃ manager clamped closing, Server.reviveClient env w c t =
      let w' := { ((w.withdraw c).plug env t k).settle t (w.clientAt t).rooms.elems .online with
        manager := manager, clamped := clamped, closing := closing }
      (w'.emit ((w.clientAt t).rooms.elems.flatMap (w'.homecoming t)), true) := by
  have hmanager : ∃ manager clamped, ClientsManager.reviveClient env w c t =
      let w' := { ((w.withdraw c).plug env t k).settle t (w.clientAt t).rooms.elems .online with
        manager := manager, clamped := clamped }
      (w'.emit ((w.clientAt t).rooms.elems.flatMap (w'.homecoming t)), true) := by
    rw [ClientsManager.reviveClient_eq hk]
    dsimp only
    obtain ⟨manager, clamped, he⟩ : Books w (removeFromClients (decrementForIp (countOut w t)
        (w.clientAt t).lastClientIP .clients) c).1 :=
      ((Books.countOut w t).trans (Books.decrementForIp _ _ _)).trans (Books.removeFromClients _ c)
    have hleft : ∀ r ∈ (w.clientAt c).rooms, ∃ m, Room.findMemberByClient w r c = some m :=
      fun r hr => Room.findMemberByClient_isSome hl hr
    rw [he, Client.onRemove_eq (w := { w with manager := manager, clamped := clamped }) hleft]
    unfold Client.onRevive
    dsimp only
    set w₁ : World := World.modifyClient _ t _ with hw₁
    have hrooms : (w₁.clientAt t).rooms = (w.clientAt t).rooms := by
      simp [hw₁, Client.setConnection, Function.update_of_ne (Ne.symm hct)]
    have hin : ∀ s n, n ∈ (w₁.roomAt s).members ↔ n ∈ (w.roomAt s).members ∧ (w.memberAt n).client ≠ c :=
      World.mem_without hl c
    have hfind : ∀ r ∈ (w.clientAt t).rooms, ∃ m, Room.findMemberByClient w₁ r t = some m := by
      intro r hr
      obtain ⟨m, hm, hmt⟩ := (hl.joinedIff t r).mp hr
      have hmc : (w.memberAt m).client ≠ c := fun he => hct (he.symm.trans hmt)
      refine ⟨m, IterSet.find?_unique ((hin r m).mpr ⟨hm, hmc⟩) ?_ ?_ (List.Perm.refl _)⟩
      · exact decide_eq_true hmt
      · intro n hn hnt
        exact hl.unique r n ((hin r n).mp hn).1 m hm ((of_decide_eq_true hnt).trans hmt.symm)
    rw [hrooms, foldl_onReviveRoom env (w.clientAt t).rooms.nodup hfind
      fun s n hn => hl.home s n ((hin s n).mp hn).1]
    refine ⟨w₁.manager, clamped, ?_⟩
    have hw : w₁ = { (w.withdraw c).plug env t k with manager := w₁.manager, clamped := clamped } := by
      simp only [hw₁, World.plug, World.withdraw, Client.setConnection, World.modifyClient,
        Function.update_idem, Function.update_self]
      rfl
    rw [hw]
    rfl
  obtain ⟨manager, clamped, he⟩ := hmanager
  have hmark : ∃ closing, Server.reviveClient env w c t =
      ({ (ClientsManager.reviveClient env w c t).1 with closing := closing },
        (ClientsManager.reviveClient env w c t).2) := by
    unfold Server.reviveClient Server.closeConnection
    dsimp only
    split
    · split <;> exact ⟨_, rfl⟩
    · exact ⟨_, rfl⟩
  obtain ⟨closing, hm⟩ := hmark
  refine ⟨manager, clamped, closing, ?_⟩
  rw [hm, he]
  rfl

variable (env) in
theorem Server.reviveClient_sent (hl : w.membership.Linked) (hct : c ≠ t)
    (hk : (w.clientAt c).connection = some k) :
    let w' := (Server.reviveClient env w c t).1
    w'.sent = w.sent ++ ((w.clientAt c).rooms.elems.flatMap (w.farewell c) ++
      (w.clientAt t).rooms.elems.flatMap (w'.homecoming t)) := by
  obtain ⟨manager, clamped, closing, he⟩ := Server.reviveClient_normal env hl hct hk
  rw [he]
  exact List.append_assoc _ _ _

end
end WsChat
