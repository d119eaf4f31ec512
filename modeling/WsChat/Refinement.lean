import WsChat.Registry
import WsChat.Lib.Membership

/-! The two abstract machines as views of the world, what leaves them alone, and what the
operations of rooms and clients do to them. -/
namespace WsChat
open Lib

def World.membership (w : World) : Membership ClientPtr RoomPtr MemberPtr Bytes where
  clients := {c | c ∈ w.manager.clients}
  rooms := {r | r ∈ w.rooms}
  joined := fun c => {r | r ∈ (w.clientAt c).rooms}
  members := fun r => {m | m ∈ (w.roomAt r).members}
  who := fun m => (w.memberAt m).client
  home := fun m => (w.memberAt m).room
  name := fun r => (w.roomAt r).name
  issued := {m | m.addr < w.nextMember}
  built := {r | r.addr < w.nextRoom}

@[simp] theorem World.mem_members {w : World} {r : RoomPtr} {m : MemberPtr} :
    m ∈ w.membership.members r ↔ m ∈ (w.roomAt r).members := Iff.rfl

theorem MemberPtr.below_succ (n : Nat) :
    {m : MemberPtr | m.addr < n + 1} = insert ⟨n⟩ {m : MemberPtr | m.addr < n} := by
  ext ⟨a⟩
  simp only [Set.mem_ofPred_eq, Set.mem_insert_iff, MemberPtr.mk.injEq]
  omega

theorem RoomPtr.below_succ (n : Nat) :
    {r : RoomPtr | r.addr < n + 1} = insert ⟨n⟩ {r : RoomPtr | r.addr < n} := by
  ext ⟨a⟩
  simp only [Set.mem_ofPred_eq, Set.mem_insert_iff, RoomPtr.mk.injEq]
  omega

theorem registry_modifyClient (w : World) (c : ClientPtr) (f : Client → Client)
    (hcon : (f (w.clientAt c)).connection = (w.clientAt c).connection)
    (hip : (f (w.clientAt c)).lastClientIP = (w.clientAt c).lastClientIP)
    (htok : (f (w.clientAt c)).token = (w.clientAt c).token) :
    (w.modifyClient c f).registry = w.registry := by
  unfold World.registry
  congr 1 <;> funext d <;> by_cases hd : d = c
  · subst hd; simpa using hcon
  · simp [hd]
  · subst hd; simpa using hip
  · simp [hd]
  · subst hd; simpa using htok
  · simp [hd]

/-- A step after which the two views are as given and nothing else of note changed. -/
structure Evolves (w : World) (g : Registry) (ms : Membership ClientPtr RoomPtr MemberPtr Bytes)
    (w' : World) : Prop where
  registry : w'.registry = g
  membership : w'.membership = ms
  nullDeref : w'.nullDeref = w.nullDeref
  hung : w'.hung = w.hung
  disk : w'.disk = w.disk

/-- A step that touches neither the registry nor who is where. -/
def Frame (w w' : World) : Prop := Evolves w w.registry w.membership w'

namespace Frame
variable {w w' w'' : World}

theorem refl (w : World) : Frame w w := ⟨rfl, rfl, rfl, rfl, rfl⟩

theorem trans (h : Frame w w') (h' : Frame w' w'') : Frame w w'' :=
  ⟨h'.registry.trans h.registry, h'.membership.trans h.membership, h'.nullDeref.trans h.nullDeref,
    h'.hung.trans h.hung, h'.disk.trans h.disk⟩

theorem emit (w : World) (out : List (ConnectionPtr × Wire)) : Frame w (w.emit out) :=
  ⟨rfl, rfl, rfl, rfl, rfl⟩

theorem modifyClient (w : World) (c : ClientPtr) (f : Client → Client)
    (hcon : (f (w.clientAt c)).connection = (w.clientAt c).connection)
    (hip : (f (w.clientAt c)).lastClientIP = (w.clientAt c).lastClientIP)
    (htok : (f (w.clientAt c)).token = (w.clientAt c).token)
    (hr : (f (w.clientAt c)).rooms = (w.clientAt c).rooms) : Frame w (w.modifyClient c f) := by
  refine ⟨registry_modifyClient w c f hcon hip htok, ?_, rfl, rfl, rfl⟩
  · unfold World.membership
    congr 1
    funext d
    by_cases hd : d = c
    · subst hd; simp [hr]
    · simp [hd]

theorem modifyMember (w : World) (m : MemberPtr) (f : Member → Member)
    (hc : (f (w.memberAt m)).client = (w.memberAt m).client)
    (hr : (f (w.memberAt m)).room = (w.memberAt m).room) : Frame w (w.modifyMember m f) := by
  refine ⟨rfl, ?_, rfl, rfl, rfl⟩
  unfold World.membership
  congr 1 <;> funext n <;> by_cases hn : n = m
  · subst hn; simpa using hc
  · simp [hn]
  · subst hn; simpa using hr
  · simp [hn]

theorem modifyRoom (w : World) (r : RoomPtr) (f : Room → Room)
    (hm : (f (w.roomAt r)).members = (w.roomAt r).members)
    (hn : (f (w.roomAt r)).name = (w.roomAt r).name) : Frame w (w.modifyRoom r f) := by
  refine ⟨rfl, ?_, rfl, rfl, rfl⟩
  unfold World.membership
  congr 1 <;> funext s <;> by_cases hs : s = r
  · subst hs; simp [hm]
  · simp [hs]
  · subst hs; simpa using hn
  · simp [hs]

theorem foldl {α : Type*} (f : World → α → World) (l : List α) (w : World)
    (h : ∀ w', Frame w w' → ∀ a ∈ l, Frame w' (f w' a)) : Frame w (l.foldl f w) := by
  induction l generalizing w with
  | nil => exact refl w
  | cons a l ih =>
    have ha := h w (refl w) a List.mem_cons_self
    exact ha.trans (ih _ fun w' hw' b hb => h w' (ha.trans hw') b (List.mem_cons_of_mem a hb))

end Frame

namespace Evolves
variable {w w' w'' : World} {g : Registry} {ms : Membership ClientPtr RoomPtr MemberPtr Bytes}

theorem then_frame (h : Evolves w g ms w') (h' : Frame w' w'') : Evolves w g ms w'' :=
  ⟨h'.registry.trans h.registry, h'.membership.trans h.membership, h'.nullDeref.trans h.nullDeref,
    h'.hung.trans h.hung, h'.disk.trans h.disk⟩

theorem after_frame (h : Frame w w') (h' : Evolves w' g ms w'') : Evolves w g ms w'' :=
  ⟨h'.registry, h'.membership, h'.nullDeref.trans h.nullDeref, h'.hung.trans h.hung,
    h'.disk.trans h.disk⟩

end Evolves

section
variable {env : Env} {w : World} {r : RoomPtr} {c : ClientPtr} {m : MemberPtr}

theorem Room.mem_of_findMemberByClient (h : Room.findMemberByClient w r c = some m) :
    m ∈ (w.roomAt r).members ∧ (w.memberAt m).client = c :=
  ⟨List.mem_of_find?_eq_some h, by simpa using List.find?_some h⟩

theorem Room.findMemberByClient_eq (h : w.membership.Linked) (hm : m ∈ (w.roomAt r).members)
    (hc : (w.memberAt m).client = c) : Room.findMemberByClient w r c = some m :=
  IterSet.find?_unique hm (by simpa using hc)
    (fun n hn he => h.unique r n hn m hm ((of_decide_eq_true he).trans hc.symm)) (List.Perm.refl _)

theorem Room.findMemberByClient_isSome (h : w.membership.Linked) (hr : r ∈ (w.clientAt c).rooms) :
    ∃ m, Room.findMemberByClient w r c = some m := by
  obtain ⟨m, hm, hc⟩ := (h.joinedIff c r).mp hr
  exact ⟨m, Room.findMemberByClient_eq h hm hc⟩

theorem Room.findMemberByClient_congr {w' : World}
    (hm : (w'.roomAt r).members = (w.roomAt r).members)
    (hc : ∀ m, (w'.memberAt m).client = (w.memberAt m).client) :
    Room.findMemberByClient w' r c = Room.findMemberByClient w r c := by
  simp only [Room.findMemberByClient, hm, hc]

theorem membership_erase {w' : World} (hc : (w.memberAt m).client = c)
    (hclient : ∀ d, (w'.clientAt d).rooms =
      if d = c then (w.clientAt c).rooms.erase r else (w.clientAt d).rooms)
    (hroom : ∀ s, (w'.roomAt s).members =
      if s = r then (w.roomAt r).members.erase m else (w.roomAt s).members)
    (hname : ∀ s, (w'.roomAt s).name = (w.roomAt s).name) (hmem : w'.memberAt = w.memberAt)
    (hman : w'.manager = w.manager) (hrooms : w'.rooms = w.rooms)
    (hnm : w'.nextMember = w.nextMember) (hnr : w'.nextRoom = w.nextRoom) :
    w'.membership = w.membership.expel r m := by
  unfold World.membership Membership.expel
  simp only [hman, hrooms, hmem, hname, hnm, hnr, hc]
  congr 1
  · funext d
    rw [hclient d]
    by_cases hd : d = c
    · subst hd
      ext s
      simp [and_comm]
    · simp [hd]
  · funext s
    rw [hroom s]
    by_cases hs : s = r
    · subst hs
      ext n
      simp [and_comm]
    · simp [hs]

theorem Client.leaveRoom_evolves (env : Env) (h : w.membership.Linked) (hr : r ∈ (w.clientAt c).rooms) :
    ∃ m, m ∈ (w.roomAt r).members ∧ (w.memberAt m).client = c ∧
      Evolves w w.registry (w.membership.expel r m) (Client.leaveRoom env w c r) := by
  obtain ⟨m, hm⟩ := Room.findMemberByClient_isSome h hr
  obtain ⟨hmr, hmc⟩ := Room.mem_of_findMemberByClient hm
  refine ⟨m, hmr, hmc, ?_⟩
  rw [Client.leaveRoom_eq hr hm]
  refine ⟨?_, ?_, rfl, rfl, rfl⟩
  · exact registry_modifyClient w c (fun cli => { cli with rooms := cli.rooms.erase r }) rfl rfl rfl
  · apply membership_erase hmc
    all_goals first | rfl | intro s
    · by_cases hs : s = c <;> simp [hs]
    · by_cases hs : s = r <;> simp [hs]
    · by_cases hs : s = r <;> simp [hs]

theorem Room.kickMember_evolves :
    Evolves w w.registry (w.membership.expel r m) (Room.kickMember env w r m) := by
  rw [Room.kickMember_eq]
  refine ⟨?_, ?_, rfl, rfl, rfl⟩
  · exact registry_modifyClient w _ (fun cli => { cli with rooms := cli.rooms.erase r }) rfl rfl rfl
  · apply membership_erase rfl
    all_goals first | rfl | intro s
    · by_cases hs : s = (w.memberAt m).client <;> simp [hs]
    · by_cases hs : s = r <;> simp [hs]
    · by_cases hs : s = r <;> simp [hs]

theorem issue_evolves (w : World) (c : ClientPtr) (r : RoomPtr) (id : UInt32) :
    Evolves w w.registry (w.membership.issue c r ⟨w.nextMember⟩) (w.issue c r id) := by
  refine ⟨rfl, ?_, rfl, rfl, rfl⟩
  unfold World.membership Membership.issue World.issue
  congr 1
  · funext s
    by_cases hs : s = r <;> simp [hs]
  · funext n
    by_cases hn : n = ⟨w.nextMember⟩ <;> simp [hn]
  · funext n
    by_cases hn : n = ⟨w.nextMember⟩ <;> simp [hn]
  · funext s
    by_cases hs : s = r <;> simp [hs]
  · exact MemberPtr.below_succ w.nextMember

theorem enter_evolves (w : World) (c : ClientPtr) (r : RoomPtr) (id : UInt32) :
    Evolves w w.registry (w.membership.enter c r ⟨w.nextMember⟩) (w.enter c r id) := by
  refine ⟨?_, ?_, rfl, rfl, rfl⟩
  · exact registry_modifyClient w c (fun cli => { cli with rooms := cli.rooms.insert r w.order.connectedRooms }) rfl rfl rfl
  unfold World.membership Membership.enter Membership.issue World.enter
  congr 1
  · funext d
    by_cases hd : d = c
    · subst hd
      ext s
      simp
    · simp [hd]
  · funext s
    by_cases hs : s = r
    · subst hs
      ext n
      simp
    · simp [hs]
  · funext n
    by_cases hn : n = ⟨w.nextMember⟩ <;> simp [hn]
  · funext n
    by_cases hn : n = ⟨w.nextMember⟩ <;> simp [hn]
  · funext s
    by_cases hs : s = r <;> simp [hs]
  · exact MemberPtr.below_succ w.nextMember

theorem Server.not_mem_of_getRoomByName {name : Bytes} (h : Server.getRoomByName w name = none) :
    ∀ r ∈ w.rooms, (w.roomAt r).name ≠ name := by
  intro r hr
  simpa using List.find?_eq_none.mp h r hr

theorem Server.mem_of_getRoomByName {name : Bytes} (h : Server.getRoomByName w name = some r) :
    r ∈ w.rooms ∧ (w.roomAt r).name = name :=
  ⟨List.mem_of_find?_eq_some h, by simpa using List.find?_some h⟩

theorem Client.mem_of_getRoomByName {name : Bytes} (h : Client.getRoomByName w c name = some r) :
    r ∈ (w.clientAt c).rooms ∧ (w.roomAt r).name = name :=
  ⟨List.mem_of_find?_eq_some h, by simpa using List.find?_some h⟩

theorem found_evolves (w : World) (name : Bytes) :
    Evolves w w.registry (w.membership.found ⟨w.nextRoom⟩ name) (w.found name) := by
  refine ⟨rfl, ?_, rfl, rfl, rfl⟩
  unfold World.membership Membership.found World.found
  congr 1
  · ext s
    simp
  · funext s
    by_cases hs : s = ⟨w.nextRoom⟩
    · subst hs
      ext n
      simp
    · simp [hs]
  · funext s
    by_cases hs : s = ⟨w.nextRoom⟩ <;> simp [hs]
  · exact RoomPtr.below_succ w.nextRoom

theorem Server.removeRoom_eq (env : Env) (h : w.membership.Linked) {name : Bytes}
    (hr : Server.getRoomByName w name = some r) :
    ∃ info out, (∀ x ∈ out, w.Farewell r x.2) ∧ Server.removeRoom env w name = { w with
      rooms := w.rooms.erase r
      clientAt := fun d => if d ∈ (w.roomAt r).members.elems.map (fun m => (w.memberAt m).client)
        then { w.clientAt d with rooms := (w.clientAt d).rooms.erase r } else w.clientAt d
      roomAt := Function.update w.roomAt r { w.roomAt r with membersInfo := info, members := ∅ }
      sent := w.sent ++ out } := by
  have hfold := foldl_onDestroyMember env (r := r) (w := { w with rooms := w.rooms.erase r })
    rfl (fun m hm n hn he => h.unique r m hm n hn he)
    (fun m hm => (h.joinedIff _ r).mpr ⟨m, hm, rfl⟩)
  obtain ⟨info, out, hout, hfold⟩ := hfold
  refine ⟨info, out, hout, ?_⟩
  unfold Server.removeRoom Room.onDestroy
  rw [hr]
  exact hfold

theorem Server.removeRoom_evolves (h : w.membership.Linked) {name : Bytes}
    (hr : Server.getRoomByName w name = some r) :
    Evolves w w.registry (w.membership.raze r) (Server.removeRoom env w name) := by
  obtain ⟨info, out, -, he⟩ := Server.removeRoom_eq env h hr
  rw [he]
  refine ⟨?_, ?_, rfl, rfl, rfl⟩
  · unfold World.registry
    congr 1 <;> funext d <;> dsimp only <;> split <;> rfl
  · unfold World.membership Membership.raze
    congr 1
    · ext s
      simp [and_comm]
    · funext d
      dsimp only
      ext s
      split
      · simp [and_comm]
      · rename_i hd
        simp only [Set.mem_sdiff, Set.mem_singleton_iff]
        refine (and_iff_left_of_imp ?_).symm
        rintro hs rfl
        obtain ⟨m, hm, he⟩ := (h.joinedIff d s).mp hs
        exact hd (List.mem_map.mpr ⟨m, hm, he⟩)
    · funext s
      by_cases hs : s = r
      · subst hs
        ext n
        simp
      · simp [hs]
    · funext s
      by_cases hs : s = r <;> simp [hs]

open ClientsManager

theorem registry_decrementForIp (w : World) (ip : Bytes) (field : Field) :
    (decrementForIp w ip field).registry = w.registry.decrement ip field := by
  have hat : w.registry.counterAt ip = counterAt w ip := rfl
  unfold decrementForIp Registry.decrement
  rw [hat]
  by_cases hn : field.get (counterAt w ip) - 1 < 0
  · simp only [hn, if_true]
    split <;> rfl
  · simp only [hn, if_false]
    split <;> rfl

theorem Client.onDisconnectRoom_frame (h : w.membership.Linked) (hr : r ∈ (w.clientAt c).rooms) :
    Frame w (Client.onDisconnectRoom env c w r) := by
  obtain ⟨m, hm⟩ := Room.findMemberByClient_isSome h hr
  unfold Client.onDisconnectRoom
  rw [hm]
  dsimp only
  have hstat : Frame w (Member.setStatus w m .orphan) := Frame.modifyMember w m _ rfl rfl
  split
  · rw [Room.sendPacketToAll_status]
    exact hstat.trans (Frame.emit _ _)
  · exact hstat

theorem Client.onReviveRoom_frame (h : w.membership.Linked) (hr : r ∈ (w.clientAt c).rooms) :
    Frame w (Client.onReviveRoom env c w r) := by
  obtain ⟨m, hm⟩ := Room.findMemberByClient_isSome h hr
  unfold Client.onReviveRoom
  rw [hm]
  simp only [Client.sendPacket_eq, foldl_sendRawData, World.emit_emit, Room.sendPacketToAll_status]
  have hstat : Frame w (Member.setStatus w m .online) := Frame.modifyMember w m _ rfl rfl
  split <;> exact hstat.trans (Frame.emit _ _)

theorem Frame.foldl_rooms {f : World → RoomPtr → World} (h : w.membership.Linked)
    (hf : ∀ w' : World, w'.membership.Linked → ∀ r ∈ (w'.clientAt c).rooms, Frame w' (f w' r)) :
    Frame w ((w.clientAt c).rooms.elems.foldl f w) := by
  apply Frame.foldl
  intro w' hw' r hr
  have hl : w'.membership.Linked := hw'.membership ▸ h
  have hj : r ∈ w'.membership.joined c := by
    rw [hw'.membership]
    exact hr
  exact hf w' hl r hj

theorem evolves_decrementForIp (w : World) (ip : Bytes) (field : Field) :
    Evolves w (w.registry.decrement ip field) w.membership (decrementForIp w ip field) := by
  refine ⟨registry_decrementForIp w ip field, ?_, ?_, ?_, ?_⟩ <;> unfold decrementForIp <;>
    dsimp only <;> split <;> split <;> rfl

theorem registry_setConnection_none (w : World) (c : ClientPtr) :
    (Client.setConnection env w c none).registry =
      { w.registry with connection := Function.update w.registry.connection c none } := by
  unfold Client.setConnection World.registry
  congr 1 <;> funext d <;> by_cases hd : d = c
  all_goals simp [hd]

theorem registry_setConnection_some (w : World) (c : ClientPtr) (k : ConnectionPtr) :
    (Client.setConnection env w c (some k)).registry =
      { w.registry with
        connection := Function.update w.registry.connection c (some k)
        lastClientIP := Function.update w.registry.lastClientIP c (env.realIp k) } := by
  unfold Client.setConnection World.registry
  congr 1 <;> funext d <;> by_cases hd : d = c
  all_goals simp [hd]

theorem membership_modifyClient (w : World) (c : ClientPtr) (f : Client → Client)
    (hr : (f (w.clientAt c)).rooms = (w.clientAt c).rooms) :
    (w.modifyClient c f).membership = w.membership := by
  unfold World.membership
  congr 1
  funext d
  by_cases hd : d = c
  · subst hd; simp [hr]
  · simp [hd]

theorem ClientsManager.makeOrphan_evolves (hi : w.registry.Indexed env) (hl : w.membership.Linked)
    (hc : c ∈ w.manager.clients) :
    Evolves w (w.registry.unlink c) w.membership (makeOrphan env w c) := by
  have hview : w.registry.connection c = (w.clientAt c).connection := rfl
  unfold makeOrphan Registry.unlink
  rw [hview]
  cases hk : (w.clientAt c).connection with
  | none => exact Frame.refl w
  | some k =>
    have hlook : w.manager.connectionToClient.lookup k = some c := (hi.connIff k c).mpr ⟨hc, hk⟩
    simp only [eraseConnection, hlook, Option.isSome_some]
    -- the connection is erased and counted out, then the client is told off in its rooms
    set w₁ : World := { w with manager := { w.manager with
      connectionToClient := w.manager.connectionToClient.erase k } } with hw₁
    have hdec := evolves_decrementForIp w₁ (w.clientAt c).lastClientIP .connections
    set w₂ := decrementForIp w₁ (w.clientAt c).lastClientIP .connections
    have hmem : (Client.setConnection env w₂ c none).membership = w.membership := by
      refine (membership_modifyClient w₂ c _ rfl).trans ?_
      exact hdec.membership
    have hloop : Frame (Client.setConnection env w₂ c none) (Client.onDisconnect env w₂ c) :=
      Frame.foldl_rooms (hmem ▸ hl) fun w' h r hr => Client.onDisconnectRoom_frame h hr
    refine Evolves.then_frame ?_ hloop
    refine ⟨?_, hmem, hdec.nullDeref, hdec.hung, hdec.disk⟩
    rw [registry_setConnection_none, hdec.registry]
    rfl

theorem Client.onRemove_eq (h : ∀ r ∈ (w.clientAt c).rooms, ∃ m, Room.findMemberByClient w r c = some m) :
    Client.onRemove env w c = { w with
      clientAt := Function.update w.clientAt c { w.clientAt c with rooms := ∅, connection := none }
      roomAt := fun r => if r ∈ (w.clientAt c).rooms then w.withoutMember c r else w.roomAt r
      sent := w.sent ++ (w.clientAt c).rooms.elems.flatMap (w.farewell c) } := by
  unfold Client.onRemove
  rw [foldl_removeMember (w.clientAt c).rooms.nodup h]
  simp [World.modifyClient, Client.setConnection]

theorem World.mem_without (hl : w.membership.Linked) (c : ClientPtr) (s : RoomPtr) (n : MemberPtr) :
    n ∈ (if s ∈ (w.clientAt c).rooms then w.withoutMember c s else w.roomAt s).members ↔
      n ∈ (w.roomAt s).members ∧ (w.memberAt n).client ≠ c := by
  by_cases hs : s ∈ (w.clientAt c).rooms
  · rw [if_pos hs]
    obtain ⟨m, hms⟩ := Room.findMemberByClient_isSome hl hs
    obtain ⟨hmr, hmc⟩ := Room.mem_of_findMemberByClient hms
    simp only [World.withoutMember, hms, IterSet.mem_erase]
    constructor
    · rintro ⟨hne, hn⟩
      exact ⟨hn, fun he => hne (hl.unique s n hn m hmr (he.trans hmc.symm))⟩
    · rintro ⟨hn, hne⟩
      refine ⟨?_, hn⟩
      rintro rfl
      exact hne hmc
  · rw [if_neg hs]
    refine (and_iff_left_of_imp fun hn he => hs ?_).symm
    exact (hl.joinedIff c s).mpr ⟨n, hn, he⟩

theorem Client.onRemove_evolves (env : Env) (hl : w.membership.Linked) {w' : World} (hc : w'.clientAt = w.clientAt)
    (hm : w'.memberAt = w.memberAt) (hr : w'.roomAt = w.roomAt) (hrooms : w'.rooms = w.rooms)
    (hnm : w'.nextMember = w.nextMember) (hnr : w'.nextRoom = w.nextRoom)
    (hman : w'.manager.clients = w.manager.clients.erase c) (hnd : w.manager.clients.Nodup) :
    Evolves w' { w'.registry with connection := Function.update w'.registry.connection c none }
      (w.membership.withdraw c) (Client.onRemove env w' c) := by
  have hfind : ∀ s ∈ (w'.clientAt c).rooms, ∃ m, Room.findMemberByClient w' s c = some m := by
    intro s hs
    obtain ⟨m, hms⟩ := Room.findMemberByClient_isSome hl (hc ▸ hs)
    exact ⟨m, (Room.findMemberByClient_congr (by rw [hr]) (by simp [hm])).trans hms⟩
  rw [Client.onRemove_eq hfind]
  refine ⟨?_, ?_, rfl, rfl, rfl⟩
  · unfold World.registry
    congr 1 <;> funext d <;> by_cases hd : d = c
    all_goals simp [hd]
  · have hwithout : ∀ s, w'.withoutMember c s = w.withoutMember c s := fun s => by
      simp only [World.withoutMember, Room.findMemberByClient, World.storedInfo, MemberInfo.ofMember,
        hc, hm, hr]
    have hmembers : ∀ s n, n ∈ (if s ∈ (w'.clientAt c).rooms then w'.withoutMember c s
        else w'.roomAt s).members ↔ n ∈ (w.roomAt s).members ∧ (w.memberAt n).client ≠ c := by
      intro s n
      rw [hwithout, hc, hr]
      exact World.mem_without hl c s n
    have hname : ∀ s, (if s ∈ (w'.clientAt c).rooms then w'.withoutMember c s
        else w'.roomAt s).name = (w.roomAt s).name := by
      intro s
      split
      · unfold World.withoutMember
        split <;> rw [hr]
      · rw [hr]
    unfold World.membership Membership.withdraw
    dsimp only
    congr 1
    · ext d
      simp [hman, hnd.mem_erase_iff, and_comm]
    · simp [hrooms]
    · funext d
      by_cases hd : d = c
      · subst hd
        ext s
        simp
      · simp [hd, hc]
    · funext s
      ext n
      exact hmembers s n
    · simp [hm]
    · simp [hm]
    · exact funext hname
    · simp [hnm]
    · simp [hnr]

theorem decrementForIp_heap (w : World) (ip : Bytes) (field : Field) :
    (decrementForIp w ip field).clientAt = w.clientAt ∧ (decrementForIp w ip field).memberAt = w.memberAt ∧
    (decrementForIp w ip field).roomAt = w.roomAt ∧ (decrementForIp w ip field).rooms = w.rooms ∧
    (decrementForIp w ip field).nextMember = w.nextMember ∧
    (decrementForIp w ip field).nextRoom = w.nextRoom ∧
    (decrementForIp w ip field).manager.clients = w.manager.clients := by
  unfold decrementForIp
  dsimp only
  split <;> split <;> exact ⟨rfl, rfl, rfl, rfl, rfl, rfl, rfl⟩

theorem ClientsManager.forget_evolves (env : Env) (hl : w.membership.Linked) (hnd : w.manager.clients.Nodup)
    {w₁ : World} (h₁ : Evolves w w₁.registry w.membership w₁)
    (hheap : w₁.clientAt = w.clientAt ∧ w₁.memberAt = w.memberAt ∧ w₁.roomAt = w.roomAt ∧
      w₁.rooms = w.rooms ∧ w₁.nextMember = w.nextMember ∧ w₁.nextRoom = w.nextRoom ∧
      w₁.manager.clients = w.manager.clients) (ip : Bytes) :
    let w₂ : World := { w₁ with manager := { w₁.manager with
      clients := w₁.manager.clients.erase c
      tokenToClient := w₁.manager.tokenToClient.erase (w₁.clientAt c).token } }
    Evolves w { w₂.registry.decrement ip .clients with
        connection := Function.update w₁.registry.connection c none }
      (w.membership.withdraw c) (Client.onRemove env (decrementForIp w₂ ip .clients) c) := by
  intro w₂
  have hdec := evolves_decrementForIp w₂ ip .clients
  obtain ⟨d1, d2, d3, d4, d5, d6, d7⟩ := decrementForIp_heap w₂ ip .clients
  obtain ⟨e1, e2, e3, e4, e5, e6, e7⟩ := hheap
  have hrem := Client.onRemove_evolves env (c := c) hl (d1.trans e1) (d2.trans e2) (d3.trans e3)
    (d4.trans e4) (d5.trans e5) (d6.trans e6)
    (d7.trans (congrArg (List.erase · c) e7)) hnd
  refine ⟨?_, hrem.membership, ?_, ?_, ?_⟩
  · rw [hrem.registry, hdec.registry]
    rfl
  · exact hrem.nullDeref.trans (hdec.nullDeref.trans h₁.nullDeref)
  · exact hrem.hung.trans (hdec.hung.trans h₁.hung)
  · exact hrem.disk.trans (hdec.disk.trans h₁.disk)

def ClientsManager.countOut (w : World) (c : ClientPtr) : World :=
  match (w.clientAt c).connection with
  | none => w
  | some k =>
    match eraseConnection w k with
    | (w', true) => decrementForIp w' (w.clientAt c).lastClientIP .connections
    | (w', false) => w'

theorem ClientsManager.countOut_evolves (hi : w.registry.Indexed env) (hc : c ∈ w.manager.clients) :
    Evolves w { w.registry.unlink c with connection := w.registry.connection } w.membership
      (countOut w c) ∧
    ((countOut w c).clientAt = w.clientAt ∧ (countOut w c).memberAt = w.memberAt ∧
      (countOut w c).roomAt = w.roomAt ∧ (countOut w c).rooms = w.rooms ∧
      (countOut w c).nextMember = w.nextMember ∧ (countOut w c).nextRoom = w.nextRoom ∧
      (countOut w c).manager.clients = w.manager.clients) := by
  unfold countOut Registry.unlink
  change Evolves w { (match (w.clientAt c).connection with | none => _ | some k => _ : Registry) with
    connection := _ } _ _ ∧ _
  cases hk : (w.clientAt c).connection with
  | none => exact ⟨Frame.refl w, rfl, rfl, rfl, rfl, rfl, rfl, rfl⟩
  | some k =>
    have hlook : w.manager.connectionToClient.lookup k = some c := (hi.connIff k c).mpr ⟨hc, hk⟩
    simp only [eraseConnection, hlook, Option.isSome_some]
    have hdec := evolves_decrementForIp { w with manager := { w.manager with
      connectionToClient := w.manager.connectionToClient.erase k } } (w.clientAt c).lastClientIP
      .connections
    exact ⟨⟨hdec.registry, hdec.membership, hdec.nullDeref, hdec.hung, hdec.disk⟩,
      decrementForIp_heap _ _ _⟩

theorem ClientsManager.remove_eq (w : World) (c : ClientPtr) :
    remove env w c = Client.onRemove env
      (match removeFromClients (countOut w c) c with
      | (w', true) => decrementForIp w' (w.clientAt c).lastClientIP .clients
      | (w', false) => w') c := rfl

theorem ClientsManager.reviveClient_eq {t : ClientPtr} {k : ConnectionPtr}
    (hk : (w.clientAt c).connection = some k) :
    ClientsManager.reviveClient env w c t =
      let w₁ := decrementForIp (countOut w t) (w.clientAt t).lastClientIP .clients
      let w₂ := Client.onRemove env (removeFromClients w₁ c).1 c
      let w₃ := { w₂ with manager := { w₂.manager with
        connectionToClient := w₂.manager.connectionToClient.insert k t } }
      (Client.onRevive env (Client.setConnection env w₃ t (some k)) t, true) := by
  unfold ClientsManager.reviveClient
  rw [hk]
  rfl

theorem Registry.unlink_connection (g : Registry) (c : ClientPtr) :
    (g.unlink c).connection = Function.update g.connection c none := by
  unfold Registry.unlink
  cases hk : g.connection c with
  | none => exact (Function.update_eq_self_iff.mpr hk.symm).symm
  | some k => rfl

theorem Registry.unlink_orphan {g : Registry} {c : ClientPtr} (h : g.connection c = none) :
    g.unlink c = g := by
  unfold Registry.unlink
  rw [h]

theorem Registry.unlink_lastClientIP (g : Registry) (c : ClientPtr) :
    (g.unlink c).lastClientIP = g.lastClientIP := by
  unfold Registry.unlink
  cases g.connection c <;> rfl

theorem Registry.unlink_token (g : Registry) (c : ClientPtr) : (g.unlink c).token = g.token := by
  unfold Registry.unlink
  cases g.connection c <;> rfl

theorem ClientsManager.remove_evolves (hi : w.registry.Indexed env) (hl : w.membership.Linked)
    (hc : c ∈ w.manager.clients) :
    Evolves w ((w.registry.unlink c).forget c) (w.membership.withdraw c) (remove env w c) := by
  obtain ⟨hout, hheap⟩ := ClientsManager.countOut_evolves hi hc
  rw [ClientsManager.remove_eq]
  generalize countOut w c = w₁ at hout hheap ⊢
  have hc₁ : c ∈ w₁.manager.clients := hheap.2.2.2.2.2.2 ▸ hc
  have hstage : Evolves w w₁.registry w.membership w₁ :=
    ⟨rfl, hout.membership, hout.nullDeref, hout.hung, hout.disk⟩
  have hforget := ClientsManager.forget_evolves env (c := c) hl hi.nodup hstage hheap (w.clientAt c).lastClientIP
  simp only [removeFromClients, if_pos hc₁]
  refine ⟨hforget.registry.trans ?_, hforget.membership, hforget.nullDeref, hforget.hung, hforget.disk⟩
  change { Registry.decrement { w₁.registry with manager := { w₁.registry.manager with
      clients := w₁.registry.manager.clients.erase c
      tokenToClient := w₁.registry.manager.tokenToClient.erase (w₁.registry.token c) } } _ .clients with
    connection := Function.update w₁.registry.connection c none } = _
  rw [hout.registry]
  have hcon := Registry.unlink_connection w.registry c
  have hip := Registry.unlink_lastClientIP w.registry c
  generalize w.registry.unlink c = g at hcon hip ⊢
  cases g
  dsimp only at hcon hip
  subst hcon hip
  rfl

theorem ClientsManager.reviveClient_evolves (hi : w.registry.Indexed env) (hl : w.membership.Linked)
    {t : ClientPtr} {k : ConnectionPtr} (hc : c ∈ w.manager.clients) (ht : t ∈ w.manager.clients)
    (hct : c ≠ t) (hk : (w.clientAt c).connection = some k) :
    Evolves w ((w.registry.unlink t).adopt env c t k) (w.membership.withdraw c)
      (ClientsManager.reviveClient env w c t).1 := by
  obtain ⟨hout, hheap⟩ := ClientsManager.countOut_evolves hi ht
  rw [ClientsManager.reviveClient_eq hk]
  dsimp only
  generalize countOut w t = w₀ at hout hheap ⊢
  -- one client is counted out at the address of the target, and the other one goes
  have hdec := evolves_decrementForIp w₀ (w.clientAt t).lastClientIP .clients
  obtain ⟨d1, d2, d3, d4, d5, d6, d7⟩ := decrementForIp_heap w₀ (w.clientAt t).lastClientIP .clients
  obtain ⟨e1, e2, e3, e4, e5, e6, e7⟩ := hheap
  generalize decrementForIp w₀ (w.clientAt t).lastClientIP .clients = w₁ at hdec d1 d2 d3 d4 d5 d6 d7 ⊢
  have hc₁ : c ∈ w₁.manager.clients := (d7.trans e7) ▸ hc
  simp only [removeFromClients, if_pos hc₁]
  have hrem : Evolves _ _ _ (Client.onRemove env { w₁ with manager := { w₁.manager with
      clients := w₁.manager.clients.erase c
      tokenToClient := w₁.manager.tokenToClient.erase (w₁.clientAt c).token } } c) :=
    Client.onRemove_evolves env hl (d1.trans e1) (d2.trans e2) (d3.trans e3) (d4.trans e4) (d5.trans e5)
      (d6.trans e6) (congrArg (List.erase · c) (d7.trans e7)) hi.nodup
  generalize Client.onRemove env _ c = w₂ at hrem ⊢
  -- the target takes the connection and is told the state of its rooms
  set w₃ : World := { w₂ with manager := { w₂.manager with
    connectionToClient := w₂.manager.connectionToClient.insert k t } }
  set w₄ := Client.setConnection env w₃ t (some k)
  have hmem₄ : w₄.membership = w.membership.withdraw c :=
    (membership_modifyClient w₃ t _ rfl).trans hrem.membership
  have hloop : Frame w₄ (Client.onRevive env w₄ t) := by
    have htouch : Frame w₄ (w₄.modifyClient t fun cli => { cli with lastPacketTime := w₄.now }) :=
      Frame.modifyClient w₄ t _ rfl rfl rfl rfl
    refine htouch.trans (Frame.foldl_rooms ?_ fun w' h r hr => Client.onReviveRoom_frame h hr)
    rw [htouch.membership, hmem₄]
    exact hl.withdraw
  refine Evolves.then_frame ?_ hloop
  refine ⟨?_, hmem₄, ?_, ?_, ?_⟩
  · have hreg₁ := hdec.registry.trans (congrArg (Registry.decrement · _ _) hout.registry)
    have hreg₂ : w₂.registry = { w₁.registry with
        manager := { w₁.registry.manager with
          clients := w₁.registry.manager.clients.erase c
          tokenToClient := w₁.registry.manager.tokenToClient.erase (w₁.registry.token c) }
        connection := Function.update w₁.registry.connection c none } := hrem.registry
    have hreg₄ : w₄.registry = { w₂.registry with
        manager := { w₂.registry.manager with
          connectionToClient := w₂.registry.manager.connectionToClient.insert k t }
        connection := Function.update w₂.registry.connection t (some k)
        lastClientIP := Function.update w₂.registry.lastClientIP t (env.realIp k) } :=
      registry_setConnection_some w₃ t k
    have htwice : Function.update (Function.update (Function.update w.registry.connection t none) c none)
        t (some k) = Function.update (Function.update w.registry.connection c none) t (some k) := by
      rw [Function.update_comm hct.symm, Function.update_idem]
    have hcon := Registry.unlink_connection w.registry t
    have hip := Registry.unlink_lastClientIP w.registry t
    rw [hreg₄, hreg₂, hreg₁]
    generalize w.registry.unlink t = g at hcon hip ⊢
    cases g
    dsimp only at hcon hip
    subst hcon hip
    unfold Registry.adopt
    dsimp only [Registry.decrement_connection]
    rw [htwice]
    rfl
  · exact hrem.nullDeref.trans (hdec.nullDeref.trans hout.nullDeref)
  · exact hrem.hung.trans (hdec.hung.trans hout.hung)
  · exact hrem.disk.trans (hdec.disk.trans hout.disk)

/-- A new client with a token that is not in use, or a loop without exit. -/
theorem ClientsManager.connect_evolves (env : Env) (w : World) (k : ConnectionPtr) (draws : List Token) :
    (∃ token, token ≠ [] ∧ w.manager.tokenToClient.lookup token = none ∧
      Evolves w (w.registry.register env k token) (w.membership.enroll ⟨w.nextClient⟩)
        (connect env w k draws)) ∨
    connect env w k draws = { w with hung := true } := by
  unfold connect
  cases hd : draws.find? fun t => !(w.manager.tokenToClient.lookup t.1).isSome with
  | none => exact .inr rfl
  | some drawn =>
    obtain ⟨token, hlength, hletters⟩ := drawn
    have hne : token ≠ [] := by
      rintro rfl
      cases hlength
    let w₁ : World := { w with
      nextClient := w.nextClient + 1
      clientAt := Function.update w.clientAt ⟨w.nextClient⟩
        { token := token, lastPacketTime := w.now, lastMessageTime := w.now } }
    have hip : ((Client.setConnection env w₁ ⟨w.nextClient⟩ (some k)).clientAt
        ⟨w.nextClient⟩).lastClientIP = env.realIp k := by
      simp [Client.setConnection]
    dsimp only
    rw [hip]
    refine .inl ⟨token, hne, by simpa using List.find?_some hd, ?_, ?_, rfl, rfl, rfl⟩
    · unfold World.registry Registry.register
      dsimp only [Client.setConnection, World.modifyClient]
      congr 1
      all_goals
        funext d
        by_cases hd : d = ⟨w.nextClient⟩ <;> simp [hd]
    · unfold World.membership Membership.enroll
      dsimp only [Client.setConnection, World.modifyClient]
      congr 1
      · ext d
        simp [or_comm]
      · funext d
        by_cases hd : d = ⟨w.nextClient⟩
        · subst hd
          ext s
          simp
        · simp [hd]

end
end WsChat
