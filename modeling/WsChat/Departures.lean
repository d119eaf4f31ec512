import WsChat.Admission
import WsChat.History
import WsChat.Timeouts
import WsChat.Lib.Writes

/-! Who leaves a room in an event and in which order, and what the room stores about them. -/
namespace WsChat
open Lib Relation ClientsManager

def World.parting (w : World) (r : RoomPtr) (gone : List ClientPtr) : List MemberInfo :=
  ((gone.filterMap (Room.findMemberByClient w r)).map (MemberInfo.ofMember w)).filter fun info => info.userId ≠ 0

/-- Some clients leave a room one after the other, and everyone else stays as it is. -/
structure Departed (r : RoomPtr) (gone : List ClientPtr) (w w' : World) : Prop where
  seats : ∀ m, m ∈ (w'.roomAt r).members ↔ m ∈ (w.roomAt r).members ∧ (w.memberAt m).client ∉ gone
  filed : (w'.roomAt r).membersInfo = writeAll MemberInfo.userId (w.roomAt r).membersInfo (w.parting r gone)
  who : ∀ m, (w'.memberAt m).client = (w.memberAt m).client
  profile : ∀ m ∈ (w'.roomAt r).members, MemberInfo.ofMember w' m = MemberInfo.ofMember w m

structure Parts (r : RoomPtr) (gone : List ClientPtr) (w w' : World) : Prop where
  seats : ∀ m ∈ (w.roomAt r).members, m ∈ (w'.roomAt r).members ↔ (w.memberAt m).client ∉ gone
  filed : (w'.roomAt r).membersInfo = writeAll MemberInfo.userId (w.roomAt r).membersInfo (w.parting r gone)

section
variable {env : Env} {w w' w'' : World} {c t : ClientPtr} {k : ConnectionPtr} {r s : RoomPtr} {m : MemberPtr}
  {gone gone' : List ClientPtr}

@[simp] theorem World.parting_nil (w : World) (r : RoomPtr) : w.parting r [] = [] := rfl

theorem World.parting_append : w.parting r (gone ++ gone') = w.parting r gone ++ w.parting r gone' := by
  simp only [World.parting, List.filterMap_append, List.map_append, List.filter_append]

theorem World.parting_congr (hfind : ∀ c ∈ gone, Room.findMemberByClient w' r c = Room.findMemberByClient w r c)
    (hprofile : ∀ m ∈ (w'.roomAt r).members, MemberInfo.ofMember w' m = MemberInfo.ofMember w m) :
    w'.parting r gone = w.parting r gone := by
  have hmembers : gone.filterMap (Room.findMemberByClient w r) = gone.filterMap (Room.findMemberByClient w' r) :=
    List.filterMap_congr fun c hc => (hfind c hc).symm
  unfold World.parting
  rw [hmembers]
  congr 1
  refine List.map_congr_left ?_
  intro m hm
  obtain ⟨c, -, hc⟩ := List.mem_filterMap.mp hm
  exact hprofile m (Room.mem_of_findMemberByClient hc).1

theorem Departed.find (hl : w.membership.Linked) (hl' : w'.membership.Linked) (h : Departed r gone w w')
    (hc : c ∉ gone) : Room.findMemberByClient w' r c = Room.findMemberByClient w r c := by
  cases hfind : Room.findMemberByClient w r c with
  | some m =>
    obtain ⟨hm, hmc⟩ := Room.mem_of_findMemberByClient hfind
    have hstays : m ∈ (w'.roomAt r).members := (h.seats m).mpr ⟨hm, hmc ▸ hc⟩
    exact Room.findMemberByClient_eq hl' hstays ((h.who m).trans hmc)
  | none =>
    cases hfind' : Room.findMemberByClient w' r c with
    | none => rfl
    | some m =>
      obtain ⟨hm, hmc⟩ := Room.mem_of_findMemberByClient hfind'
      have hold := Room.findMemberByClient_eq hl ((h.seats m).mp hm).1 ((h.who m).symm.trans hmc)
      rw [hfind] at hold
      cases hold

theorem Departed.trans (hl : w.membership.Linked) (hl' : w'.membership.Linked) (h : Departed r gone w w')
    (h' : Departed r gone' w' w'') (hnew : ∀ c ∈ gone', c ∉ gone) : Departed r (gone ++ gone') w w'' where
  seats := by
    intro m
    rw [h'.seats m, h.seats m, h.who m, List.mem_append, not_or, and_assoc]
  filed := by
    have hparting : w'.parting r gone' = w.parting r gone' :=
      World.parting_congr (fun c hc => h.find hl hl' (hnew c hc)) h.profile
    rw [h'.filed, h.filed, hparting, World.parting_append, writeAll_append]
  who := fun m => (h'.who m).trans (h.who m)
  profile := by
    intro m hm
    have hstays : m ∈ (w'.roomAt r).members := ((h'.seats m).mp hm).1
    rw [h'.profile m hm, h.profile m hstays]

theorem Parts.after (hl : w.membership.Linked) (hl' : w'.membership.Linked) (h : Departed r [] w w')
    (h' : Parts r gone w' w'') : Parts r gone w w'' := by
  have hmembers : ∀ m, m ∈ (w'.roomAt r).members ↔ m ∈ (w.roomAt r).members := by
    intro m
    simpa using h.seats m
  refine ⟨?_, ?_⟩
  · intro m hm
    rw [h'.seats m ((hmembers m).mpr hm), h.who m]
  · have hparting : w'.parting r gone = w.parting r gone :=
      World.parting_congr (fun c _ => h.find hl hl' List.not_mem_nil) h.profile
    rw [h'.filed, h.filed, hparting, World.parting_nil, writeAll_nil]

theorem Departed.parts (h : Departed r gone w w') : Parts r gone w w' :=
  ⟨fun m hm => (h.seats m).trans (and_iff_right hm), h.filed⟩

theorem MemberInfo.ofMember_congr (hmember : w'.memberAt m = w.memberAt m)
    (huid : ∀ c, (w'.clientAt c).uid = (w.clientAt c).uid) :
    MemberInfo.ofMember w' m = MemberInfo.ofMember w m := by
  unfold MemberInfo.ofMember
  rw [hmember, huid]

theorem World.uid_update (w : World) (c d : ClientPtr) {cli : Client} (h : cli.uid = (w.clientAt c).uid) :
    (Function.update w.clientAt c cli d).uid = (w.clientAt d).uid := by
  by_cases hd : d = c
  · subst hd
    simpa using h
  · simp [hd]

theorem Departed.of_same (hroom : w'.roomAt r = w.roomAt r) (hwho : ∀ m, (w'.memberAt m).client = (w.memberAt m).client)
    (hprofile : ∀ m ∈ (w.roomAt r).members, MemberInfo.ofMember w' m = MemberInfo.ofMember w m) :
    Departed r [] w w' := by
  refine ⟨?_, ?_, hwho, ?_⟩
  · intro m
    simp [hroom]
  · rw [hroom, World.parting_nil, writeAll_nil]
  · rw [hroom]
    exact hprofile

theorem Departed.of_heap (hroom : w'.roomAt = w.roomAt) (hmember : w'.memberAt = w.memberAt)
    (huid : ∀ c, (w'.clientAt c).uid = (w.clientAt c).uid) : Departed r [] w w' := by
  refine .of_same (by rw [hroom]) (fun m => by rw [hmember]) ?_
  intro m _
  exact MemberInfo.ofMember_congr (by rw [hmember]) huid

theorem Parts.of_same (hmembers : ∀ m ∈ (w.roomAt r).members, m ∈ (w'.roomAt r).members)
    (hinfo : (w'.roomAt r).membersInfo = (w.roomAt r).membersInfo) : Parts r [] w w' := by
  refine ⟨?_, ?_⟩
  · intro m hm
    simp [hmembers m hm]
  · rw [hinfo, World.parting_nil, writeAll_nil]

theorem World.storedInfo_eq (h : Room.findMemberByClient w r c = some m) :
    w.storedInfo m (w.roomAt r) = writeAll MemberInfo.userId (w.roomAt r).membersInfo (w.parting r [c]) := by
  have hparting : w.parting r [c] = [MemberInfo.ofMember w m].filter fun info => info.userId ≠ 0 := by
    simp [World.parting, h]
  have huid : (MemberInfo.ofMember w m).userId = (w.clientAt (w.memberAt m).client).uid := rfl
  rw [hparting]
  unfold World.storedInfo Client.isGuest
  dsimp only
  by_cases hguest : (w.clientAt (w.memberAt m).client).uid = 0
  · simp [huid, hguest]
  · have hle : ¬ (w.clientAt (w.memberAt m).client).uid ≤ 0 := by
      intro hle
      exact hguest (UInt32.le_zero_iff.mp hle)
    simp [huid, hguest, hle, writeAll]

theorem Departed.withdraw (hl : w.membership.Linked) (c : ClientPtr) : Departed r [c] w (w.withdraw c) := by
  have hroom : (w.withdraw c).roomAt r =
      if r ∈ (w.clientAt c).rooms then w.withoutMember c r else w.roomAt r := rfl
  refine ⟨?_, ?_, fun _ => rfl, ?_⟩
  · intro m
    rw [hroom, World.mem_without hl, List.mem_singleton]
  · rw [hroom]
    by_cases hr : r ∈ (w.clientAt c).rooms
    · obtain ⟨m, hm⟩ := Room.findMemberByClient_isSome hl hr
      rw [if_pos hr, ← World.storedInfo_eq hm]
      simp only [World.withoutMember, hm]
    · have hnone : Room.findMemberByClient w r c = none := by
        cases hfind : Room.findMemberByClient w r c with
        | none => rfl
        | some m => exact absurd ((hl.joinedIff c r).mpr ⟨m, Room.mem_of_findMemberByClient hfind⟩) hr
      have hparting : w.parting r [c] = [] := by simp [World.parting, hnone]
      rw [if_neg hr, hparting, writeAll_nil]
  · intro m _
    exact MemberInfo.ofMember_congr rfl fun d => World.uid_update w c d rfl

theorem Departed.remove (hl : w.membership.Linked) (c : ClientPtr) : Departed r [c] w (remove env w c) := by
  have hgoes : Departed r [c] w (w.withdraw c) := .withdraw hl c
  have hnormal : ∃ manager clamped, ClientsManager.remove env w c =
      { w.withdraw c with manager := manager, clamped := clamped } := remove_normal hl
  obtain ⟨manager, clamped, he⟩ := hnormal
  rw [he]
  exact ⟨hgoes.seats, hgoes.filed, hgoes.who, hgoes.profile⟩

theorem Departed.leaveRoom (hl : w.membership.Linked) (hr : r ∈ (w.clientAt c).rooms) :
    Departed r [c] w (Client.leaveRoom env w c r) := by
  obtain ⟨m, hm⟩ := Room.findMemberByClient_isSome hl hr
  obtain ⟨hin, hmc⟩ := Room.mem_of_findMemberByClient hm
  rw [Client.leaveRoom_eq hr hm]
  refine ⟨?_, ?_, fun _ => rfl, ?_⟩
  · intro n
    simp only [World.modifyRoom_roomAt, Function.update_self, IterSet.mem_erase, List.mem_singleton]
    constructor
    · intro h
      exact ⟨h.2, fun he => h.1 (hl.unique r n h.2 m hin (he.trans hmc.symm))⟩
    · intro h
      exact ⟨fun he => h.2 (he ▸ hmc), h.1⟩
  · rw [← World.storedInfo_eq hm]
    simp
  · intro n _
    exact MemberInfo.ofMember_congr rfl fun d => World.uid_update w c d rfl

theorem Departed.leaveRoom_other (hl : w.membership.Linked) (hs : s ∈ (w.clientAt c).rooms) (hrs : r ≠ s) :
    Departed r [] w (Client.leaveRoom env w c s) := by
  obtain ⟨m, hm⟩ := Room.findMemberByClient_isSome hl hs
  rw [Client.leaveRoom_eq hs hm]
  refine .of_same ?_ (fun _ => rfl) ?_
  · simp [hrs]
  · intro n _
    exact MemberInfo.ofMember_congr rfl fun d => World.uid_update w c d rfl

theorem MemberInfo.ofMember_settle (w : World) (c : ClientPtr) (l : List RoomPtr) (stat : Status) (m : MemberPtr) :
    MemberInfo.ofMember (w.settle c l stat) m = MemberInfo.ofMember w m := by
  unfold MemberInfo.ofMember World.settle
  dsimp only
  split <;> rfl

variable (env) in
theorem Departed.reviveClient (hl : w.membership.Linked) (hct : c ≠ t) (hk : (w.clientAt c).connection = some k) :
    Departed r [c] w (Server.reviveClient env w c t).1 := by
  have hgoes : Departed r [c] w (w.withdraw c) := .withdraw hl c
  obtain ⟨manager, clamped, closing, he⟩ := Server.reviveClient_normal env hl hct hk
  rw [he]
  refine ⟨hgoes.seats, hgoes.filed, ?_, ?_⟩
  · exact World.settle_client ((w.withdraw c).plug env t k) t (w.clientAt t).rooms.elems .online
  · intro m hm
    rw [← hgoes.profile m hm]
    refine (MemberInfo.ofMember_settle ((w.withdraw c).plug env t k) t _ .online m).trans ?_
    exact MemberInfo.ofMember_congr rfl fun d => World.uid_update (w.withdraw c) t d rfl

theorem Departed.makeOrphan (h : WF env w) (hc : c ∈ w.manager.clients) : Departed r [] w (makeOrphan env w c) := by
  cases hk : (w.clientAt c).connection with
  | none =>
    have hsame : ClientsManager.makeOrphan env w c = w := by
      unfold ClientsManager.makeOrphan
      rw [hk]
    rw [hsame]
    exact .of_heap rfl rfl fun _ => rfl
  | some k =>
    obtain ⟨manager, clamped, he⟩ := ClientsManager.makeOrphan_normal h.indexed h.linked hc hk
    rw [he]
    refine .of_same rfl ?_ ?_
    · exact World.settle_client (w.unplug c) c (w.clientAt c).rooms.elems .orphan
    · intro m _
      refine (MemberInfo.ofMember_settle (w.unplug c) c _ .orphan m).trans ?_
      exact MemberInfo.ofMember_congr rfl fun d => World.uid_update w c d rfl

/-- In an event some of the clients leave, in the order of the registry. -/
def Departs (w w' : World) : Prop := ∃ gone, gone.Sublist w.manager.clients ∧ ∀ r, Departed r gone w w'

theorem Departs.nobody (h : ∀ r, Departed r [] w w') : Departs w w' := ⟨[], List.nil_sublist _, h⟩

theorem Departs.single (hc : c ∈ w.manager.clients) (h : ∀ r, Departed r [c] w w') : Departs w w' :=
  ⟨[c], List.singleton_sublist.mpr hc, h⟩

theorem ClientsManager.makeOrphanByConnection_departs (h : WF env w) (k : ConnectionPtr) :
    Departs w (makeOrphanByConnection env w k) := by
  unfold makeOrphanByConnection
  cases hc : findClientByConnection w k with
  | none => exact .nobody fun r => .of_heap rfl rfl fun _ => rfl
  | some c => exact .nobody fun r => .makeOrphan h (ClientsManager.findClientByConnection_spec h hc).1

theorem Server.onClose_departs (h : WF env w) (k : ConnectionPtr) (status : Int) :
    Departs w (Server.onClose env w k status) := by
  unfold Server.onClose
  split
  · unfold removeByConnection
    cases hc : findClientByConnection w k with
    | none => exact .nobody fun r => .of_heap rfl rfl fun _ => rfl
    | some c => exact .single (ClientsManager.findClientByConnection_spec h hc).1 fun r => .remove h.linked c
  · exact ClientsManager.makeOrphanByConnection_departs h k

theorem Departed.connect (hl : w.membership.Linked) (hfresh : ∀ d ∈ w.manager.clients, d.addr < w.nextClient)
    (k : ConnectionPtr) (draws : List Token) : Departed r [] w (connect env w k draws) := by
  obtain ⟨hmember, hroom⟩ := ClientsManager.connect_heap env w k draws
  refine .of_same (by rw [hroom]) (fun m => by rw [hmember]) ?_
  intro m hm
  have hold : (w.memberAt m).client ≠ ⟨w.nextClient⟩ := by
    intro he
    have hlt := hfresh _ (hl.registered r m hm)
    change (w.memberAt m).client.addr < w.nextClient at hlt
    rw [he] at hlt
    exact Nat.lt_irrefl _ hlt
  have huid : ((ClientsManager.connect env w k draws).clientAt (w.memberAt m).client).uid =
      (w.clientAt (w.memberAt m).client).uid := by
    unfold ClientsManager.connect
    split
    · rfl
    · simp [Client.setConnection, hold]
  unfold MemberInfo.ofMember
  rw [hmember, huid]

theorem Server.onOpen_departs (h : WF env w) (k : ConnectionPtr) (draws : List Token) :
    Departs w (Server.onOpen env { w with opened := k :: w.opened } k draws) := by
  have hi := World.arrival_indexed (k := k) h
  have hl : (w.arrival env k).membership.Linked := h.linked
  have harrival : ∀ r, Departed r [] w (w.arrival env k) := fun r => .of_heap rfl rfl fun _ => rfl
  rcases Server.onOpen_cases env h k draws with ⟨-, he⟩ | ⟨-, ⟨-, he⟩ | ⟨c, hc, -, hck, -, he⟩⟩
  · rw [he]
    exact .nobody fun r => .of_heap rfl rfl fun _ => rfl
  · rw [he]
    exact .nobody fun r => (harrival r).trans h.linked hl (.connect hl hi.fresh k draws) (by simp)
  · rw [he]
    have hev := ClientsManager.remove_orphan_evolves hi hl hc hck
    have hi' : (ClientsManager.remove env (w.arrival env k) c).registry.Indexed env := hev.registry ▸ hi.forget hc hck
    have hl' : (ClientsManager.remove env (w.arrival env k) c).membership.Linked := hev.membership ▸ hl.withdraw
    refine .single (c := c) hc fun r => ?_
    have hremove : Departed r [c] w (ClientsManager.remove env (w.arrival env k) c) :=
      (harrival r).trans h.linked hl (.remove hl c) (by simp)
    exact hremove.trans h.linked hl' (.connect hl' hi'.fresh k draws) (by simp)

theorem Server.tickClient_departed (h : WF env w) (hc : c ∈ w.manager.clients) (toKick : List ClientPtr) :
    Departed r [] w (Server.tickClient env (w, toKick) c).1 := by
  have hsame : Departed r [] w w := .of_heap rfl rfl fun _ => rfl
  unfold Server.tickClient
  dsimp only
  split
  · exact hsame
  · split
    · cases (w.clientAt c).connection with
      | none => exact hsame
      | some k =>
        have hmark : Departed r [] w (Server.closeConnection w k) := .of_heap rfl rfl fun _ => rfl
        have hw : WF env (Server.closeConnection w k) := h.frame (Server.closeConnection_frame w k)
        exact hmark.trans h.linked hw.linked (.makeOrphan hw hc) (by simp)
    · split
      · rw [Client.sendPacket_eq]
        exact .of_heap rfl rfl fun _ => rfl
      · exact hsame

theorem Server.tickClients_departed {l : List ClientPtr} (h : WF env w) (hl : ∀ c ∈ l, c ∈ w.manager.clients)
    (toKick : List ClientPtr) : Departed r [] w (l.foldl (Server.tickClient env) (w, toKick)).1 := by
  induction l generalizing w toKick with
  | nil => exact .of_heap rfl rfl fun _ => rfl
  | cons c l ih =>
    have hc := hl c List.mem_cons_self
    have hone : Departed r [] w (Server.tickClient env (w, toKick) c).1 := Server.tickClient_departed h hc toKick
    obtain ⟨hroutines, hclients, -⟩ := Server.tickClient_spec h hc toKick
    rw [List.foldl_cons]
    generalize Server.tickClient env (w, toKick) c = acc at hone hroutines hclients ⊢
    obtain ⟨w₁, toKick₁⟩ := acc
    have hw₁ := h.routines hroutines
    have hrest := ih hw₁ (fun d hd => hclients.symm ▸ hl d (List.mem_cons_of_mem c hd)) toKick₁
    exact hone.trans h.linked hw₁.linked hrest (by simp)

theorem Server.kickOutdated_departed (h : WF env w) (c : ClientPtr) :
    Departed r [c] w (Server.kickOutdated env w c) := by
  unfold Server.kickOutdated
  cases (w.clientAt c).connection with
  | none => exact .remove h.linked c
  | some k =>
    have hmark : Departed r [] w (Server.closeConnection w k) := .of_heap rfl rfl fun _ => rfl
    have hw : WF env (Server.closeConnection w k) := h.frame (Server.closeConnection_frame w k)
    exact hmark.trans h.linked hw.linked (.remove hw.linked c) (by simp)

theorem Server.kickAll_departed {l : List ClientPtr} (h : WF env w) (hl : ∀ c ∈ l, c ∈ w.manager.clients)
    (hnd : l.Nodup) : Departed r l w (l.foldl (Server.kickOutdated env) w) := by
  induction l generalizing w with
  | nil => exact .of_heap rfl rfl fun _ => rfl
  | cons c l ih =>
    obtain ⟨hcl, hnd⟩ := List.nodup_cons.mp hnd
    have hone : Departed r [c] w (Server.kickOutdated env w c) := Server.kickOutdated_departed h c
    obtain ⟨hroutines, hclients⟩ := Server.kickOutdated_routines h (hl c List.mem_cons_self)
    have hw₁ := h.routines hroutines
    have hnodup : w.manager.clients.Nodup := h.indexed.nodup
    have hin : ∀ d ∈ l, d ∈ (Server.kickOutdated env w c).manager.clients := by
      intro d hd
      rw [hclients, hnodup.mem_erase_iff]
      exact ⟨fun he => hcl (he ▸ hd), hl d (List.mem_cons_of_mem c hd)⟩
    rw [List.foldl_cons]
    refine hone.trans h.linked hw₁.linked (ih hw₁ hin hnd) ?_
    intro d hd
    rw [List.mem_singleton]
    exact fun he => hcl (he ▸ hd)

theorem Server.onTimer_departs (h : WF env w) : Departs w (Server.onTimer env w) := by
  have hnodup : w.manager.clients.Nodup := h.indexed.nodup
  obtain ⟨hw₁, hclients, -, -, hkick⟩ := Server.tickClients_round [] h (fun c hc => hc) hnodup
  have hfirst : ∀ r, Departed r [] w (w.manager.clients.foldl (Server.tickClient env) (w, [])).1 :=
    fun r => Server.tickClients_departed h (fun c hc => hc) []
  rw [List.nil_append] at hkick
  unfold Server.onTimer
  dsimp only
  rw [hkick]
  generalize (w.manager.clients.foldl (Server.tickClient env) (w, [])).1 = w₁ at hw₁ hclients hfirst ⊢
  have hin : ∀ c ∈ w.manager.clients.filter (fun c => w.Outdated c), c ∈ w₁.manager.clients := by
    intro c hc
    rw [hclients]
    exact (List.mem_filter.mp hc).1
  refine ⟨w.manager.clients.filter fun c => w.Outdated c, List.filter_sublist, fun r => ?_⟩
  exact (hfirst r).trans h.linked hw₁.linked (Server.kickAll_departed hw₁ hin (hnodup.filter _)) (by simp)

theorem Parts.of_roomAt (h : w'.roomAt = w.roomAt) : Parts r [] w w' :=
  .of_same (fun m hm => by rwa [h]) (by rw [h])

theorem Client.sendPacket_roomAt (w : World) (c : ClientPtr) (p : Packet) :
    (Client.sendPacket w c p).roomAt = w.roomAt := by
  rw [Client.sendPacket_eq]
  rfl

theorem PacketOnlineList.process_roomAt (p : PacketOnlineList) :
    (PacketOnlineList.process w c p).roomAt = w.roomAt := by
  unfold PacketOnlineList.process
  split <;> exact Client.sendPacket_roomAt w c _

theorem PacketStatus.process_roomAt (p : PacketStatus) : (PacketStatus.process env w c p).roomAt = w.roomAt := by
  have hturn : ∀ (w' : World) s, w'.roomAt = w.roomAt →
      (PacketStatus.presenceRoom env c p.status w' s).roomAt = w.roomAt := by
    intro w' s hw'
    unfold PacketStatus.presenceRoom
    split
    · exact hw'
    · split
      · rw [Room.sendPacketToAll_status]
        exact hw'
      · exact hw'
  unfold PacketStatus.process
  split
  · exact foldl_invariant (P := fun w' : World => w'.roomAt = w.roomAt) _ hturn _ rfl
  · split
    · split
      · rfl
      · split
        · rfl
        · split
          · rw [Room.sendPacketToAll_status]
            rfl
          · rfl
    · rfl

theorem PacketAuth.processLogin_roomAt (sv : AuthServices) (p : PacketAuth) :
    (PacketAuth.processLogin env sv w c p).roomAt = w.roomAt := by
  have hanswer : ∀ (w : World) (result : Except AuthExit Unit),
      (PacketAuth.answer sv p c result w).roomAt = w.roomAt := by
    intro w result
    unfold PacketAuth.answer
    split
    · exact Client.sendPacket_roomAt w c _
    · split <;> exact Client.sendPacket_roomAt w c _
    · exact Client.sendPacket_roomAt w c _
    · exact Client.sendPacket_roomAt w c _
  rw [PacketAuth.processLogin_eq]
  generalize (PacketAuth.authenticate env sv _ _ p).run {} = outcome
  dsimp only
  rw [hanswer]
  cases outcome.2.user with
  | none => rfl
  | some user => rfl

theorem PacketJoin.process_parts (p : PacketJoin) : Parts r [] w (PacketJoin.process env w c p) := by
  have hsent := fun w => Client.sendPacket_roomAt w c
  unfold PacketJoin.process
  cases Client.getRoomByName w c p.target with
  | some s => exact .of_roomAt (hsent w _)
  | none =>
    cases Server.getRoomByName w p.target with
    | none => exact .of_roomAt (hsent w _)
    | some s =>
      dsimp only
      rcases Client.joinRoom_cases w c s with ⟨id, -, hjoin | ⟨e, he, hjoin⟩⟩ | hjoin
      · rw [hjoin]
        have hsettled : Settled (w.enter c s id) (PacketJoin.welcome env (w.enter c s id) c s ⟨w.nextMember⟩ p) :=
          PacketJoin.welcome_settled _ c s _ p
        have hroom := hsettled.roomAt
        refine .of_same ?_ ?_
        · intro m hm
          rw [hroom]
          by_cases hs : r = s
          · subst hs
            simp [World.enter, hm]
          · simpa [World.enter, hs] using hm
        · rw [hroom]
          by_cases hs : r = s
          · subst hs
            simp [World.enter]
          · simp [World.enter, hs]
      · have hissue : Parts r [] w (w.issue c s id) := by
          refine .of_same ?_ ?_
          · intro m hm
            by_cases hs : r = s
            · subst hs
              simpa [World.issue] using hm
            · simpa [World.issue, hs] using hm
          · by_cases hs : r = s
            · subst hs
              simp [World.issue]
            · simp [World.issue, hs]
        rw [hjoin]
        cases e with
        | hung => exact absurd rfl he
        | bannedByIP => exact ⟨by rw [hsent]; exact hissue.seats, by rw [hsent]; exact hissue.filed⟩
        | bannedByID => exact ⟨by rw [hsent]; exact hissue.seats, by rw [hsent]; exact hissue.filed⟩
      · rw [hjoin]
        exact .of_roomAt rfl

theorem PacketCreateRoom.process_parts (hr : r ≠ ⟨w.nextRoom⟩) (p : PacketTarget) :
    Parts r [] w (PacketCreateRoom.process w c p) := by
  unfold PacketCreateRoom.process
  split
  · exact .of_roomAt (Client.sendPacket_roomAt w c _)
  · split
    · exact .of_roomAt (Client.sendPacket_roomAt w c _)
    · cases hroom : Server.getRoomByName w p.target with
      | some s =>
        simp only [Server.createRoom, hroom]
        exact .of_roomAt (Client.sendPacket_roomAt w c _)
      | none =>
        rw [Server.createRoom_eq hroom]
        refine .of_same ?_ ?_
        · intro m hm
          rw [Client.sendPacket_roomAt]
          simpa [World.found, hr] using hm
        · rw [Client.sendPacket_roomAt]
          simp [World.found, hr]

theorem PacketRemoveRoom.process_parts (hl : w.membership.Linked) (p : PacketTarget)
    (hr : r ∈ (PacketRemoveRoom.process env w c p).rooms) : Parts r [] w (PacketRemoveRoom.process env w c p) := by
  revert hr
  unfold PacketRemoveRoom.process
  split
  · exact fun _ => .of_roomAt (Client.sendPacket_roomAt w c _)
  · cases hroom : Server.getRoomByName w p.target with
    | none => exact fun _ => .of_roomAt (Client.sendPacket_roomAt w c _)
    | some s =>
      dsimp only
      split
      · obtain ⟨info, out, -, he⟩ := Server.removeRoom_eq env hl hroom
        rw [he, Client.sendPacket_eq]
        intro hr
        have hrs : r ≠ s := (IterSet.mem_erase.mp hr).1
        exact .of_same (fun m hm => by simpa [hrs] using hm) (by simp [hrs])
      · exact fun _ => .of_roomAt (Client.sendPacket_roomAt w c _)

theorem PacketLeave.process_parts (hl : w.membership.Linked) (hc : c ∈ w.manager.clients) (p : PacketTarget) :
    ∃ gone, gone.Sublist w.manager.clients ∧ Departed r gone w (PacketLeave.process env w c p) := by
  unfold PacketLeave.process
  cases hroom : Client.getRoomByName w c p.target with
  | none =>
    refine ⟨[], List.nil_sublist _, ?_⟩
    rw [Client.sendPacket_eq]
    exact .of_heap rfl rfl fun _ => rfl
  | some s =>
    have hs := (Client.mem_of_getRoomByName hroom).1
    dsimp only
    rw [Client.sendPacket_eq]
    by_cases hrs : r = s
    · subst hrs
      have hleave : Departed r [c] w (Client.leaveRoom env w c r) := .leaveRoom hl hs
      exact ⟨[c], List.singleton_sublist.mpr hc, hleave.seats, hleave.filed, hleave.who, hleave.profile⟩
    · have hstay : Departed r [] w (Client.leaveRoom env w c s) := .leaveRoom_other hl hs hrs
      exact ⟨[], List.nil_sublist _, hstay.seats, hstay.filed, hstay.who, hstay.profile⟩

theorem PacketAuth.process_parts (h : WF env w) (hc : c ∈ w.manager.clients)
    (hk : (w.clientAt c).connection = some k) (sv : AuthServices) (p : PacketAuth) :
    ∃ gone, gone.Sublist w.manager.clients ∧ Parts r gone w (PacketAuth.process env sv w c p) := by
  unfold PacketAuth.process
  cases sv.construct with
  | error _ => exact ⟨[], List.nil_sublist _, .of_roomAt (Client.sendPacket_roomAt w c _)⟩
  | ok _ =>
    dsimp only
    cases ht : PacketAuth.target w c p with
    | none => exact ⟨[], List.nil_sublist _, .of_roomAt (PacketAuth.processLogin_roomAt sv p)⟩
    | some t =>
      have hct : c ≠ t := by
        unfold PacketAuth.target at ht
        split at ht
        · cases ht
        · exact Ne.symm (by simpa using (Option.filter_eq_some_iff.mp ht).2)
      dsimp only
      rw [Client.sendPacket_eq]
      have hl : (w.emit (w.mail c (.packet (PacketAuth.reply w p t)))).membership.Linked := h.linked
      have hgoes : Departed r [c] (w.emit (w.mail c (.packet (PacketAuth.reply w p t)))) _ :=
        .reviveClient env hl hct hk
      have htold : Departed r [] w (w.emit (w.mail c (.packet (PacketAuth.reply w p t)))) :=
        .of_heap rfl rfl fun _ => rfl
      exact ⟨[c], List.singleton_sublist.mpr hc, (htold.trans h.linked hl hgoes (by simp)).parts⟩

theorem Deeds.membersInfo {w₀ : World} {S : Bytes → Prop} (h : Deeds env c w₀ S w w') (r : RoomPtr) :
    (w'.roomAt r).membersInfo = (w.roomAt r).membersInfo := by
  have hkick : ∀ (w : World) s m, ((Room.kickMember env w s m).roomAt r).membersInfo = (w.roomAt r).membersInfo := by
    intro w s m
    rw [Room.kickMember_eq]
    by_cases hs : r = s
    · subst hs
      simp
    · simp [hs]
  induction h with
  | refl => rfl
  | tail _ hdeed ih =>
    rw [← ih]
    cases hdeed with
    | quiet hq => exact hq.membersInfo r
    | kick s m => exact hkick _ s m
    | banKick s m nick =>
      rw [hkick]
      by_cases hs : r = s
      · subst hs
        simp
      · simp [hs]

end

def Act.packet (env : Env) : Act → Option Packet
  | .message _ msg _ => msg.bind fun obj => (Packet.read env.unset obj).toOption.join
  | _ => none

/-- The event delivers a chat message. Kicks are commands in such messages. -/
def Act.speaks (env : Env) (act : Act) : Bool :=
  match act.packet env with
  | some (.message _) => true
  | _ => false

def Act.isRestart : Act → Bool
  | .restart => true
  | _ => false

/-- The members that leave a room in an event other than by a kick, in the order in which they leave. -/
def World.leavers (env : Env) (w : World) (e : Event) (r : RoomPtr) : List MemberPtr :=
  if e.act.speaks env || e.act.isRestart then []
  else (w.manager.clients.filterMap (Room.findMemberByClient w r)).filter fun m =>
    m ∉ ((w.step env e).roomAt r).members

section
variable {env : Env} {w w' : World} {c : ClientPtr} {k : ConnectionPtr} {r : RoomPtr} {gone : List ClientPtr}

theorem Packet.process_parts (h : WF env w) (hc : c ∈ w.manager.clients)
    (hk : (w.clientAt c).connection = some k) (sv : AuthServices) {p : Packet} (hp : ∀ q, p ≠ .message q)
    (hr : r ∈ w.rooms) (hr' : r ∈ (p.process env sv w c).rooms) :
    ∃ gone, gone.Sublist w.manager.clients ∧ Parts r gone w (p.process env sv w c) := by
  have hnobody : ∀ {w' : World}, Parts r [] w w' → ∃ gone, gone.Sublist w.manager.clients ∧ Parts r gone w w' :=
    fun h => ⟨[], List.nil_sublist _, h⟩
  cases p with
  | error | system | ping => exact hnobody (.of_roomAt rfl)
  | message q => exact absurd rfl (hp q)
  | onlineList p => exact hnobody (.of_roomAt (PacketOnlineList.process_roomAt p))
  | auth p => exact PacketAuth.process_parts h hc hk sv p
  | status p => exact hnobody (.of_roomAt (PacketStatus.process_roomAt p))
  | join p => exact hnobody (PacketJoin.process_parts p)
  | leave p =>
    have hparts : ∃ gone, gone.Sublist w.manager.clients ∧ Departed r gone w (PacketLeave.process env w c p) :=
      PacketLeave.process_parts h.linked hc p
    obtain ⟨gone, hsub, hleave⟩ := hparts
    exact ⟨gone, hsub, hleave.parts⟩
  | createRoom p =>
    have hold : r ≠ ⟨w.nextRoom⟩ := by
      intro he
      have hlt : r.addr < w.nextRoom := h.linked.built r hr
      rw [he] at hlt
      exact Nat.lt_irrefl _ hlt
    exact hnobody (PacketCreateRoom.process_parts hold p)
  | removeRoom p => exact hnobody (PacketRemoveRoom.process_parts h.linked p hr')

theorem Server.onMessage_packet (hc : findClientByConnection w k = some c) (msg : Option Json) (sv : AuthServices) :
    Server.onMessage env sv w k msg = ((Act.message k msg sv).packet env).elim w fun p =>
      p.process env sv (w.modifyClient c fun cli => { cli with lastPacketTime := w.now }) c := by
  unfold Server.onMessage Client.onPacket
  rw [hc]
  cases msg with
  | none => rfl
  | some obj =>
    have hpacket : (Act.message k (some obj) sv).packet env = (Packet.read env.unset obj).toOption.join := rfl
    rw [hpacket]
    dsimp only [Option.map_some]
    cases Packet.read env.unset obj with
    | error _ => rfl
    | ok pack =>
      cases pack with
      | none => rfl
      | some p => rfl

theorem World.touch_frame (w : World) (c : ClientPtr) :
    Frame w (w.modifyClient c fun cli => { cli with lastPacketTime := w.now }) :=
  Frame.modifyClient w c _ rfl rfl rfl rfl

theorem World.not_connection {d : ClientPtr} (h : WF env w) (hfind : findClientByConnection w k = none) (hd : d ∈ w.manager.clients) :
    (w.clientAt d).connection ≠ some k := by
  intro hdk
  have hlook : findClientByConnection w k = some d := (h.indexed.connIff k d).mpr ⟨hd, hdk⟩
  rw [hfind] at hlook
  cases hlook

theorem Server.onMessage_cases (h : WF env w) (sv : AuthServices) (k : ConnectionPtr) (msg : Option Json) :
    (((∀ c ∈ w.manager.clients, (w.clientAt c).connection ≠ some k) ∨ (Act.message k msg sv).packet env = none) ∧
      Server.onMessage env sv w k msg = w) ∨
    ∃ c p, c ∈ w.manager.clients ∧ (w.clientAt c).connection = some k ∧ (Act.message k msg sv).packet env = some p ∧
      Server.onMessage env sv w k msg =
        p.process env sv (w.modifyClient c fun cli => { cli with lastPacketTime := w.now }) c := by
  cases hfind : findClientByConnection w k with
  | none =>
    refine .inl ⟨.inl fun c hc => World.not_connection h hfind hc, ?_⟩
    unfold Server.onMessage
    rw [hfind]
  | some c =>
    obtain ⟨hc, hk⟩ := ClientsManager.findClientByConnection_spec h hfind
    rw [Server.onMessage_packet hfind]
    cases hpacket : (Act.message k msg sv).packet env with
    | none => exact .inl ⟨.inr rfl, rfl⟩
    | some p => exact .inr ⟨c, p, hc, hk, rfl, rfl⟩

theorem Act.speaks_iff {act : Act} : act.speaks env = true ↔ ∃ p, act.packet env = some (.message p) := by
  unfold Act.speaks
  cases act.packet env with
  | none => simp
  | some p =>
    cases p with
    | message p => simp
    | _ => simp

theorem Server.onMessage_parts (h : WF env w) {sv : AuthServices} {k : ConnectionPtr} {msg : Option Json}
    (hspeaks : (Act.message k msg sv).speaks env = false) (hr : r ∈ w.rooms)
    (hr' : r ∈ (Server.onMessage env sv w k msg).rooms) :
    ∃ gone, gone.Sublist w.manager.clients ∧ Parts r gone w (Server.onMessage env sv w k msg) := by
  rcases Server.onMessage_cases h sv k msg with ⟨-, hdrop⟩ | ⟨c, p, hc, hk, hpacket, hprocess⟩
  · rw [hdrop]
    exact ⟨[], List.nil_sublist _, .of_roomAt rfl⟩
  · have htouch : Departed r [] w (w.modifyClient c fun cli => { cli with lastPacketTime := w.now }) :=
      .of_heap rfl rfl fun d => World.uid_update w c d rfl
    have h' : WF env (w.modifyClient c fun cli => { cli with lastPacketTime := w.now }) :=
      h.frame (Frame.modifyClient w c _ rfl rfl rfl rfl)
    have hk' : ((w.modifyClient c fun cli => { cli with lastPacketTime := w.now }).clientAt c).connection = some k := by
      simpa using hk
    have hp : ∀ q, p ≠ .message q := by
      intro q he
      rw [Act.speaks_iff.mpr ⟨q, by rw [hpacket, he]⟩] at hspeaks
      cases hspeaks
    rw [hprocess] at hr' ⊢
    obtain ⟨gone, hsub, hparts⟩ := Packet.process_parts h' hc hk' sv hp hr hr'
    exact ⟨gone, hsub, hparts.after h.linked h'.linked htouch⟩

theorem World.handle_parts (h : WF env w) {act : Act} (hspeaks : act.speaks env = false) (hrestart : act.isRestart = false)
    (hr : r ∈ w.rooms) (hr' : r ∈ (w.handle env act).rooms) :
    ∃ gone, gone.Sublist w.manager.clients ∧ Parts r gone w (w.handle env act) := by
  have hdeparts : ∀ {w' : World}, Departs w w' → ∃ gone, gone.Sublist w.manager.clients ∧ Parts r gone w w' := by
    intro w' hw'
    obtain ⟨gone, hsub, hgone⟩ := hw'
    exact ⟨gone, hsub, (hgone r).parts⟩
  cases act with
  | connected k draws =>
    change ∃ gone, gone.Sublist w.manager.clients ∧ Parts r gone w (if k ∈ w.opened then w
      else Server.onOpen env { w with opened := k :: w.opened } k draws)
    split
    · exact ⟨[], List.nil_sublist _, .of_roomAt rfl⟩
    · exact hdeparts (Server.onOpen_departs h k draws)
  | message k msg sv => exact Server.onMessage_parts h hspeaks hr hr'
  | closed k status => exact hdeparts (Server.onClose_departs h k status)
  | failed k => exact hdeparts (ClientsManager.makeOrphanByConnection_departs h k)
  | tick => exact hdeparts (Server.onTimer_departs h)
  | save => exact ⟨[], List.nil_sublist _, .of_roomAt rfl⟩
  | restart => cases hrestart

theorem World.step_parts (h : WF env w) {e : Event} (hspeaks : e.act.speaks env = false)
    (hrestart : e.act.isRestart = false) (hr : r ∈ w.rooms) (hr' : r ∈ (w.step env e).rooms) :
    ∃ gone, gone.Sublist w.manager.clients ∧ Parts r gone w (w.step env e) := by
  have hclock : Departed r [] w { w with now := e.now } := .of_heap rfl rfl fun _ => rfl
  have h' : WF env { w with now := e.now } := h.chore (.clock e.now)
  cases hh : w.hung with
  | false =>
    rw [World.step_running hh] at hr' ⊢
    obtain ⟨gone, hsub, hparts⟩ := World.handle_parts h' hspeaks hrestart hr hr'
    exact ⟨gone, hsub, hparts.after h.linked h'.linked hclock⟩
  | true =>
    obtain ⟨now, act⟩ := e
    refine ⟨[], List.nil_sublist _, .of_roomAt ?_⟩
    cases act with
    | restart => cases hrestart
    | save => rw [World.step_save]
    | _ => rw [World.step_hung hh (by simp)]

theorem Server.onMessage_membersInfo (h : WF env w) {sv : AuthServices} {k : ConnectionPtr} {msg : Option Json}
    (hspeaks : (Act.message k msg sv).speaks env = true) (r : RoomPtr) :
    ((Server.onMessage env sv w k msg).roomAt r).membersInfo = (w.roomAt r).membersInfo := by
  obtain ⟨q, hq⟩ := Act.speaks_iff.mp hspeaks
  rcases Server.onMessage_cases h sv k msg with ⟨-, hdrop⟩ | ⟨c, p, hc, hk, hpacket, hprocess⟩
  · rw [hdrop]
  · have hp : p = .message q := Option.some.inj (hpacket.symm.trans hq)
    have hcalm : Calm w (w.modifyClient c fun cli => { cli with lastPacketTime := w.now }) :=
      (Calm.refl w).touch _ rfl rfl
    have h' : WF env (w.modifyClient c fun cli => { cli with lastPacketTime := w.now }) :=
      h.frame (Frame.modifyClient w c _ rfl rfl rfl rfl)
    rw [hprocess, hp]
    exact (PacketMessage.process_deeds (S := Anywhere) h' hcalm q trivial).membersInfo r

theorem World.step_speaks (h : WF env w) {e : Event} (hspeaks : e.act.speaks env = true) (r : RoomPtr) :
    ((w.step env e).roomAt r).membersInfo = (w.roomAt r).membersInfo := by
  have h' : WF env { w with now := e.now } := h.chore (.clock e.now)
  obtain ⟨now, act⟩ := e
  cases act with
  | message k msg sv =>
    cases hh : w.hung with
    | true => rw [World.step_hung hh (by simp)]
    | false =>
      rw [World.step_running hh]
      exact Server.onMessage_membersInfo h' hspeaks r
  | _ => cases hspeaks

theorem World.leavers_eq (h : WF env w) {e : Event} (hspeaks : e.act.speaks env = false)
    (hrestart : e.act.isRestart = false)
    (hsub : gone.Sublist w.manager.clients) (hparts : Parts r gone w (w.step env e)) :
    w.leavers env e r = gone.filterMap (Room.findMemberByClient w r) := by
  have hgone : ∀ c, ((Room.findMemberByClient w r c).filter fun m => m ∉ ((w.step env e).roomAt r).members) =
      if c ∈ gone then Room.findMemberByClient w r c else none := by
    intro c
    cases hfind : Room.findMemberByClient w r c with
    | none => simp
    | some m =>
      obtain ⟨hm, hmc⟩ := Room.mem_of_findMemberByClient hfind
      have hseat := hparts.seats m hm
      rw [hmc] at hseat
      by_cases hc : c ∈ gone
      · have hout : m ∉ ((w.step env e).roomAt r).members := fun hin => hseat.mp hin hc
        simp [hc, hout]
      · have hin : m ∈ ((w.step env e).roomAt r).members := hseat.mpr hc
        simp [hc, hin]
  have hpick : w.manager.clients.filter (fun c => c ∈ gone) = gone := filter_mem_of_sublist hsub h.indexed.nodup
  have hno : (e.act.speaks env || e.act.isRestart) = false := by rw [hspeaks, hrestart]; rfl
  rw [World.leavers, hno, if_neg Bool.false_ne_true, List.filter_filterMap]
  conv_rhs => rw [← hpick, List.filterMap_filter]
  refine List.filterMap_congr ?_
  intro c _
  rw [hgone c]
  simp

theorem World.step_membersInfo (h : WF env w) {e : Event} (hrestart : e.act.isRestart = false) (hr : r ∈ w.rooms)
    (hr' : r ∈ (w.step env e).rooms) :
    ((w.step env e).roomAt r).membersInfo = writeAll MemberInfo.userId (w.roomAt r).membersInfo
      (((w.leavers env e r).map (MemberInfo.ofMember w)).filter fun info => info.userId ≠ 0) := by
  cases hspeaks : e.act.speaks env with
  | true =>
    have hnone : w.leavers env e r = [] := by simp [World.leavers, hspeaks]
    rw [World.step_speaks h hspeaks, hnone, List.map_nil, List.filter_nil, writeAll_nil]
  | false =>
    obtain ⟨gone, hsub, hparts⟩ := World.step_parts h hspeaks hrestart hr hr'
    rw [hparts.filed, World.leavers_eq h hspeaks hrestart hsub hparts]
    rfl

def World.lastLeaver (env : Env) (w : World) (e : Event) (r : RoomPtr) (uid : UInt32) : Option MemberPtr :=
  ((w.leavers env e r).filter fun m => (w.clientAt (w.memberAt m).client).uid = uid).getLast?

/-- A room has the profile of an account as the last of its members had it that left. -/
theorem World.step_lookup (h : WF env w) {e : Event} (hrestart : e.act.isRestart = false) (hr : r ∈ w.rooms)
    (hr' : r ∈ (w.step env e).rooms) {uid : UInt32} (huid : uid ≠ 0) :
    ((w.step env e).roomAt r).membersInfo.lookup uid =
      ((w.lastLeaver env e r uid).map (MemberInfo.ofMember w)).or ((w.roomAt r).membersInfo.lookup uid) := by
  rw [World.step_membersInfo h hrestart hr hr', lookup_writeAll]
  congr 1
  rw [lastWrite, List.filter_filter, World.lastLeaver, ← List.getLast?_map, List.filter_map]
  congr 2
  refine List.filter_congr ?_
  intro m _
  have hkey : (MemberInfo.ofMember w m).userId = (w.clientAt (w.memberAt m).client).uid := rfl
  by_cases he : (w.clientAt (w.memberAt m).client).uid = uid
  · simp [hkey, he, huid]
  · simp [hkey, he]

end
end WsChat
