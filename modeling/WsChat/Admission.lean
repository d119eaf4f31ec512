import WsChat.Replies
import Mathlib.Data.Finset.Card
import Mathlib.Order.Interval.Finset.Nat

/-! Who gets into a room, and what is left of a request to enter it that was refused. -/
namespace WsChat
open Lib Relation ClientsManager

/-- A moderator of the room may enter, and everyone whose address and account are not banned. -/
def Client.Admitted (w : World) (c : ClientPtr) (r : RoomPtr) : Prop :=
  ((w.clientAt c).isAdmin ∨ (w.clientAt c).uid ≠ 0 ∧
    ((w.clientAt c).uid = (w.roomAt r).ownerId ∨ (w.clientAt c).uid ∈ (w.roomAt r).moderators)) ∨
  (w.clientAt c).lastClientIP ∉ (w.roomAt r).bannedIps ∧ (w.clientAt c).uid ∉ (w.roomAt r).bannedUids

/-- One error is sent, and nothing is left but the counter of member ids of the given room. -/
structure Untraced (k : ConnectionPtr) (counter : Option RoomPtr) (p : PacketJoin) (code : ErrorCode)
    (w w' : World) : Prop where
  reply : ∃ e : PacketError, w'.sent = w.sent ++ [(k, .packet (.error e))] ∧ e.source = .join ∧ e.code = code ∧
    e.target = p.target ∧ e.sequenceId = p.sequenceId
  rooms : w'.rooms = w.rooms
  clientAt : ∀ d, ∃ time, w'.clientAt d = { w.clientAt d with lastPacketTime := time }
  memberAt : ∀ r, ∀ m ∈ (w.roomAt r).members, w'.memberAt m = w.memberAt m
  roomAt : ∀ r, some r ≠ counter → w'.roomAt r = w.roomAt r
  counter : ∀ r ∈ counter, ∃ id, w'.roomAt r = { w.roomAt r with nextMemberId := id }

section
variable {env : Env} {w : World} {c : ClientPtr} {r : RoomPtr} {k : ConnectionPtr} {p : PacketJoin}

theorem Room.genNextMemberIdLoop_none {fuel : Nat} {start : UInt32}
    (h : Room.genNextMemberIdLoop w r fuel start = none) :
    ∀ i < fuel, ∀ id : UInt32, id = start + 1 + UInt32.ofNat i →
      id = 0 ∨ ∃ m ∈ (w.roomAt r).members, (w.memberAt m).id = id := by
  induction fuel generalizing start with
  | zero => exact fun i hi => absurd hi (Nat.not_lt_zero i)
  | succ fuel ih =>
    unfold Room.genNextMemberIdLoop at h
    split at h
    · rename_i htaken
      intro i hi id hid
      cases i with
      | zero =>
        have hid' : id = start + 1 := by simpa using hid
        subst hid'
        simp only [Bool.or_eq_true, beq_iff_eq] at htaken
        refine htaken.imp_right fun hfound => ?_
        obtain ⟨m, hm⟩ := Option.isSome_iff_exists.mp hfound
        exact ⟨m, List.mem_of_find?_eq_some hm, by simpa using List.find?_some hm⟩
      | succ i =>
        refine ih h i (Nat.lt_of_succ_lt_succ hi) id ?_
        rw [hid, Nat.add_comm i 1, UInt32.ofNat_add, ← UInt32.add_assoc]
        rfl
    · cases h

theorem Room.genNextMemberId_isSome (h : (w.roomAt r).members.elems.length < 2 ^ 32 - 1) :
    ∃ id, Room.genNextMemberId w r = some id := by
  by_contra hno
  have hnone : Room.genNextMemberId w r = none :=
    Option.eq_none_iff_forall_ne_some.mpr fun id hid => hno ⟨id, hid⟩
  have htaken : ∀ n ∈ Finset.Ico 1 (2 ^ 32),
      n ∈ ((w.roomAt r).members.elems.map fun m => (w.memberAt m).id.toNat).toFinset := by
    intro n hn
    obtain ⟨hpos, hlt⟩ := Finset.mem_Ico.mp hn
    let id := UInt32.ofNat n
    let i := (id - ((w.roomAt r).nextMemberId + 1)).toNat
    have hid : id = (w.roomAt r).nextMemberId + 1 + UInt32.ofNat i := by
      simp only [i, UInt32.ofNat_toNat]
      rw [UInt32.add_comm, UInt32.sub_add_cancel]
    have htoNat : id.toNat = n := UInt32.toNat_ofNat_of_lt' hlt
    rcases Room.genNextMemberIdLoop_none hnone i (UInt32.toNat_lt _) id hid with h0 | ⟨m, hm, he⟩
    · rw [h0] at htoNat
      simp at htoNat
      omega
    · rw [List.mem_toFinset, List.mem_map]
      exact ⟨m, hm, by rw [he, htoNat]⟩
  have hcard := Finset.card_le_card htaken
  have hlength := List.toFinset_card_le ((w.roomAt r).members.elems.map fun m => (w.memberAt m).id.toNat)
  rw [Nat.card_Ico] at hcard
  rw [List.length_map] at hlength
  omega

theorem Room.genNextMemberIdLoop_full
    (h : ∀ id : UInt32, id ≠ 0 → ∃ m ∈ (w.roomAt r).members, (w.memberAt m).id = id) (fuel : Nat) :
    ∀ start, Room.genNextMemberIdLoop w r fuel start = none := by
  induction fuel with
  | zero => exact fun _ => rfl
  | succ fuel ih =>
    intro start
    unfold Room.genNextMemberIdLoop
    rw [if_pos ?_]
    · exact ih (start + 1)
    · by_cases h0 : start + 1 = 0
      · simp [h0]
      · obtain ⟨m, hm, hid⟩ := h (start + 1) h0
        have hsome : (Room.findMemberById w r (start + 1)).isSome :=
          List.find?_isSome.mpr ⟨m, hm, by simpa using hid⟩
        simp [hsome]

theorem Room.genNextMemberId_full (hs : Seated w) (h : (w.roomAt r).members.elems.length = 2 ^ 32 - 1) :
    Room.genNextMemberId w r = none := by
  let ids := ((w.roomAt r).members.elems.map fun m => (w.memberAt m).id.toNat).toFinset
  have hnodup : ((w.roomAt r).members.elems.map fun m => (w.memberAt m).id.toNat).Nodup := by
    refine List.Nodup.map_on (fun m hm n hn he => ?_) (w.roomAt r).members.nodup
    exact hs.ids r m hm n hn (UInt32.toNat_inj.mp he)
  have hsub : ids ⊆ Finset.Ico 1 (2 ^ 32) := by
    intro n hn
    obtain ⟨m, hm, rfl⟩ := List.mem_map.mp (List.mem_toFinset.mp hn)
    have hpos : (w.memberAt m).id.toNat ≠ 0 := fun h0 => hs.numbered r m hm (UInt32.toNat_inj.mp h0)
    exact Finset.mem_Ico.mpr ⟨Nat.pos_of_ne_zero hpos, UInt32.toNat_lt _⟩
  have hall : ids = Finset.Ico 1 (2 ^ 32) := by
    refine Finset.eq_of_subset_of_card_le hsub ?_
    rw [Nat.card_Ico, List.toFinset_card_of_nodup hnodup, List.length_map, h]
  refine Room.genNextMemberIdLoop_full (fun id h0 => ?_) _ _
  have hid : id.toNat ∈ ids := by
    rw [hall, Finset.mem_Ico]
    exact ⟨Nat.pos_of_ne_zero fun he => h0 (UInt32.toNat_inj.mp he), UInt32.toNat_lt id⟩
  obtain ⟨m, hm, he⟩ := List.mem_map.mp (List.mem_toFinset.mp hid)
  exact ⟨m, hm, UInt32.toNat_inj.mp he⟩

theorem Member.isModer_issue (w : World) (c : ClientPtr) (r : RoomPtr) (id : UInt32) :
    Member.isModer (w.issue c r id) ⟨w.nextMember⟩ ↔ (w.clientAt c).isAdmin ∨ (w.clientAt c).uid ≠ 0 ∧
      ((w.clientAt c).uid = (w.roomAt r).ownerId ∨ (w.clientAt c).uid ∈ (w.roomAt r).moderators) := by
  simp [Member.isModer, Member.isOwner, Member.isAdmin, World.issue, and_or_left, or_assoc]

theorem Client.joinRoom_ok_iff {id : UInt32} (hid : Room.genNextMemberId w r = some id) :
    (∃ m, (Client.joinRoom w c r).2 = .ok m) ↔ Client.Admitted w c r := by
  have hmoder := Member.isModer_issue w c r id
  have hips : ((w.issue c r id).roomAt r).bannedIps = (w.roomAt r).bannedIps := by simp [World.issue]
  have huids : ((w.issue c r id).roomAt r).bannedUids = (w.roomAt r).bannedUids := by simp [World.issue]
  have hadd : Room.addMember w r c =
      if !Member.isModer (w.issue c r id) ⟨w.nextMember⟩ && decide ((w.clientAt c).lastClientIP ∈ (w.roomAt r).bannedIps)
      then (w.issue c r id, .error .bannedByIP)
      else if !Member.isModer (w.issue c r id) ⟨w.nextMember⟩ && decide ((w.clientAt c).uid ∈ (w.roomAt r).bannedUids)
      then (w.issue c r id, .error .bannedByID)
      else ((w.issue c r id).modifyRoom r fun rm => { rm with members := rm.members.insert ⟨w.nextMember⟩ w.order.members },
        .ok ⟨w.nextMember⟩) := by
    rw [← hips, ← huids]
    unfold Room.addMember
    rw [hid]
    rfl
  unfold Client.joinRoom Client.Admitted
  rw [hadd, ← hmoder]
  by_cases hm : Member.isModer (w.issue c r id) ⟨w.nextMember⟩ = true
  · simp [hm]
  · by_cases hip : (w.clientAt c).lastClientIP ∈ (w.roomAt r).bannedIps
    · simp [hm, hip]
    · by_cases huid : (w.clientAt c).uid ∈ (w.roomAt r).bannedUids
      · simp [hm, hip, huid]
      · simp [hm, hip, huid]

theorem Client.joinRoom_admitted {id : UInt32} (hid : Room.genNextMemberId w r = some id)
    (ha : Client.Admitted w c r) : Client.joinRoom w c r = (w.enter c r id, .ok ⟨w.nextMember⟩) := by
  obtain ⟨m, hm⟩ := (Client.joinRoom_ok_iff hid).mpr ha
  rcases Client.joinRoom_cases w c r with ⟨id', hid', hjoin | ⟨e, -, hjoin⟩⟩ | hjoin
  · rw [hid] at hid'
    cases hid'
    exact hjoin
  · rw [hjoin] at hm
    cases hm
  · rw [hjoin] at hm
    cases hm

theorem Client.joinRoom_refused {id : UInt32} (hid : Room.genNextMemberId w r = some id)
    (ha : ¬ Client.Admitted w c r) :
    ∃ e, e ≠ .hung ∧ Client.joinRoom w c r = (w.issue c r id, .error e) := by
  rcases Room.addMember_cases c hid with ⟨e, he, hadd⟩ | hadd
  · refine ⟨e, he, ?_⟩
    unfold Client.joinRoom
    rw [hadd]
  · refine absurd ((Client.joinRoom_ok_iff hid).mp ⟨⟨w.nextMember⟩, ?_⟩) ha
    unfold Client.joinRoom
    rw [hadd]

/-- A step that leaves the rooms and the registry as they are, and everyone in place. -/
structure Settled (w w' : World) : Prop where
  frame : Frame w w'
  roomAt : w'.roomAt = w.roomAt
  rooms : w'.rooms = w.rooms

theorem Settled.refl (w : World) : Settled w w := ⟨Frame.refl w, rfl, rfl⟩

theorem Settled.trans {w' w'' : World} (h : Settled w w') (h' : Settled w' w'') : Settled w w'' :=
  ⟨h.frame.trans h'.frame, h'.roomAt.trans h.roomAt, h'.rooms.trans h.rooms⟩

theorem Settled.emit (w : World) (out : List (ConnectionPtr × Wire)) : Settled w (w.emit out) :=
  ⟨Frame.emit w out, rfl, rfl⟩

theorem Settled.modifyMember (w : World) (m : MemberPtr) (f : Member → Member)
    (hc : (f (w.memberAt m)).client = (w.memberAt m).client) (hr : (f (w.memberAt m)).room = (w.memberAt m).room) :
    Settled w (w.modifyMember m f) := ⟨Frame.modifyMember w m f hc hr, rfl, rfl⟩

theorem PacketJoin.autoNick_settled (w : World) (c : ClientPtr) (r : RoomPtr) (m : MemberPtr) (p : PacketJoin) :
    Settled w (PacketJoin.autoNick w c r m p).2 := by
  unfold PacketJoin.autoNick
  split
  · obtain ⟨girl, color, hw⟩ := PacketJoin.restore_world w c r m
    obtain ⟨⟨out, -, he⟩, -⟩ := PacketJoin.checkNick_spec (fun _ => True) (PacketJoin.restore w c r m).2 r m
      (PacketJoin.restore w c r m).1
    dsimp only
    rw [he, hw]
    exact (Settled.modifyMember w m _ rfl rfl).trans (Settled.emit _ out)
  · exact Settled.refl w

theorem Member.setNick_settled (w : World) (m : MemberPtr) (nick : Bytes) :
    Settled w (Member.setNick env w m nick) := by
  unfold Member.setNick
  dsimp only
  split
  · exact Settled.refl w
  · split
    · rw [Member.sendPacket_eq]
      exact Settled.emit w _
    · rw [Room.sendPacketToAll_status]
      exact (Settled.modifyMember w m _ rfl rfl).trans (Settled.emit _ _)

theorem PacketJoin.settle_settled (w : World) (m : MemberPtr) (nick : Bytes) :
    Settled w (PacketJoin.settle env w m nick) := by
  have hsend : ∀ (w : World) (p : Packet), Settled w (Member.sendPacket w m p) := fun w p => by
    rw [Member.sendPacket_eq]
    exact Settled.emit w _
  unfold PacketJoin.settle
  dsimp only
  split
  · exact (hsend w _).trans (hsend _ _)
  · exact (hsend w _).trans (Member.setNick_settled _ m nick)

theorem PacketJoin.welcome_settled (w : World) (c : ClientPtr) (r : RoomPtr) (m : MemberPtr) (p : PacketJoin) :
    Settled w (PacketJoin.welcome env w c r m p) := by
  rw [PacketJoin.welcome_eq]
  exact ((Settled.emit w _).trans (PacketJoin.autoNick_settled _ c r m p)).trans (PacketJoin.settle_settled _ m _)

theorem Untraced.of_refuse (hk : (w.clientAt c).connection = some k) (code : ErrorCode) (info : Bytes) :
    Untraced k none p code w (Client.sendPacket w c (p.refuse p.target code info)) := by
  rw [Client.sendPacket_eq, World.mail, hk]
  refine ⟨⟨_, rfl, rfl, rfl, rfl, rfl⟩, rfl, fun d => ⟨_, rfl⟩, fun _ _ _ => rfl, fun _ _ => rfl, ?_⟩
  exact fun r hr => by cases hr

theorem PacketJoin.process_member (hk : (w.clientAt c).connection = some k)
    (hr : Client.getRoomByName w c p.target = some r) :
    Untraced k none p .alreadyConnected w (PacketJoin.process env w c p) := by
  unfold PacketJoin.process
  rw [hr]
  exact .of_refuse hk _ _

theorem PacketJoin.process_absent (hk : (w.clientAt c).connection = some k)
    (hmine : Client.getRoomByName w c p.target = none) (hroom : Server.getRoomByName w p.target = none) :
    Untraced k none p .notFound w (PacketJoin.process env w c p) := by
  unfold PacketJoin.process
  rw [hmine, hroom]
  exact .of_refuse hk _ _

theorem PacketJoin.process_refused {id : UInt32} (hl : w.membership.Linked)
    (hk : (w.clientAt c).connection = some k) (hmine : Client.getRoomByName w c p.target = none)
    (hroom : Server.getRoomByName w p.target = some r) (hid : Room.genNextMemberId w r = some id)
    (ha : ¬ Client.Admitted w c r) :
    Untraced k (some r) p .userBanned w (PacketJoin.process env w c p) := by
  have hname : ((w.issue c r id).roomAt r).name = p.target := by
    simpa [World.issue] using (Server.mem_of_getRoomByName hroom).2
  have huntraced : ∀ info, Untraced k (some r) p .userBanned w
      (Client.sendPacket (w.issue c r id) c (p.refuse ((w.issue c r id).roomAt r).name .userBanned info)) := by
    intro info
    have hk' : ((w.issue c r id).clientAt c).connection = some k := hk
    rw [Client.sendPacket_eq, World.mail, hk', hname]
    refine ⟨⟨_, rfl, rfl, rfl, rfl, rfl⟩, rfl, fun d => ⟨_, rfl⟩, fun s m hm => ?_, fun s hs => ?_, ?_⟩
    · exact Function.update_of_ne (hl.ne_of_mem w.not_issued m hm) _ _
    · exact Function.update_of_ne (fun he => hs (congrArg some he)) _ _
    · rintro s hs
      cases hs
      exact ⟨id, Function.update_self ..⟩
  obtain ⟨e, he, hjoin⟩ := Client.joinRoom_refused hid ha
  unfold PacketJoin.process
  rw [hmine, hroom]
  dsimp only
  rw [hjoin]
  cases e with
  | hung => exact absurd rfl he
  | bannedByIP => exact huntraced _
  | bannedByID => exact huntraced _

variable (env) in
theorem PacketJoin.process_accepted {id : UInt32} (hmine : Client.getRoomByName w c p.target = none)
    (hroom : Server.getRoomByName w p.target = some r) (hid : Room.genNextMemberId w r = some id)
    (ha : Client.Admitted w c r) : Settled (w.enter c r id) (PacketJoin.process env w c p) := by
  unfold PacketJoin.process
  rw [hmine, hroom]
  dsimp only
  rw [Client.joinRoom_admitted hid ha]
  exact PacketJoin.welcome_settled _ c r _ p

theorem Untraced.after_touch {w' : World} {counter : Option RoomPtr} {code : ErrorCode} {time : Int}
    (h : Untraced k counter p code (w.modifyClient c fun cli => { cli with lastPacketTime := time }) w') :
    Untraced k counter p code w w' := by
  refine ⟨h.reply, h.rooms, fun d => ?_, h.memberAt, h.roomAt, h.counter⟩
  obtain ⟨t, ht⟩ := h.clientAt d
  refine ⟨t, ?_⟩
  rw [ht]
  by_cases hd : d = c
  · subst hd
    simp
  · simp [hd]

theorem Client.getRoomByName_touch (w : World) (c : ClientPtr) (time : Int) (name : Bytes) :
    Client.getRoomByName (w.modifyClient c fun cli => { cli with lastPacketTime := time }) c name =
      Client.getRoomByName w c name := by
  simp [Client.getRoomByName]

theorem Client.getRoomByName_of_mem (hl : w.membership.Linked) (hr : r ∈ (w.clientAt c).rooms) :
    Client.getRoomByName w c (w.roomAt r).name = some r := by
  refine IterSet.find?_unique hr (by simp) ?_ (List.Perm.refl _)
  intro s hs he
  have hname : (w.roomAt s).name = (w.roomAt r).name := by simpa using he
  exact hl.names s (hl.listed_of_joined hs) r (hl.listed_of_joined hr) hname

theorem Client.getRoomByName_of_not_mem (hl : w.membership.Linked) {name : Bytes}
    (hroom : Server.getRoomByName w name = some r) (hr : r ∉ (w.clientAt c).rooms) :
    Client.getRoomByName w c name = none := by
  cases hmine : Client.getRoomByName w c name with
  | none => rfl
  | some s =>
    obtain ⟨hs, hname⟩ := Client.mem_of_getRoomByName hmine
    obtain ⟨hr', hname'⟩ := Server.mem_of_getRoomByName hroom
    have hsame : s = r := hl.names s (hl.listed_of_joined hs) r hr' (hname.trans hname'.symm)
    exact absurd (hsame ▸ hs) hr

theorem Client.getRoomByName_of_absent (hl : w.membership.Linked) {name : Bytes}
    (hroom : Server.getRoomByName w name = none) : Client.getRoomByName w c name = none := by
  cases hmine : Client.getRoomByName w c name with
  | none => rfl
  | some s =>
    obtain ⟨hs, hname⟩ := Client.mem_of_getRoomByName hmine
    exact absurd hname (Server.not_mem_of_getRoomByName hroom s (hl.listed_of_joined hs))

theorem Server.onMessage_refused {msg : Json} (hw : WF env w) (hc : findClientByConnection w k = some c)
    (hread : Packet.read env.unset msg = .ok (some (.join p))) (hroom : Server.getRoomByName w p.target = some r)
    (hr : r ∉ (w.clientAt c).rooms) (ha : ¬ Client.Admitted w c r) (sv : AuthServices) :
    let w' := Server.onMessage env sv w k (some msg)
    ((w.roomAt r).members.elems.length < 2 ^ 32 - 1 → Untraced k (some r) p .userBanned w w') ∧
      ¬ ∃ m ∈ (w'.roomAt r).members, (w'.memberAt m).client = c := by
  intro w'
  obtain ⟨hcl, hk⟩ := findClientByConnection_spec hw hc
  let w₁ := w.modifyClient c fun cli => { cli with lastPacketTime := w.now }
  have hw' : w' = PacketJoin.process env w₁ c p := Server.onMessage_read hc hread sv
  have hk₁ : (w₁.clientAt c).connection = some k := by simpa [w₁] using hk
  have hl : w.membership.Linked := hw.linked
  have htouch : Frame w w₁ :=
    Frame.modifyClient w c (fun cli => { cli with lastPacketTime := w.now }) rfl rfl rfl rfl
  have hl₁ : w₁.membership.Linked := htouch.membership ▸ hl
  have hmine₁ : Client.getRoomByName w₁ c p.target = none :=
    (Client.getRoomByName_touch w c w.now p.target).trans (Client.getRoomByName_of_not_mem hl hroom hr)
  have ha₁ : ¬ Client.Admitted w₁ c r := by
    simpa [Client.Admitted, Client.isAdmin, w₁] using ha
  have hout : ∀ m ∈ (w.roomAt r).members, (w.memberAt m).client ≠ c :=
    fun m hm hmc => hr ((hl.joinedIff c r).mpr ⟨m, hm, hmc⟩)
  rw [hw']
  cases hnext : Room.genNextMemberId w₁ r with
  | none =>
    have hhung : PacketJoin.process env w₁ c p = { w₁ with hung := true } := by
      have hroom₁ : Server.getRoomByName w₁ p.target = some r := hroom
      unfold PacketJoin.process Client.joinRoom Room.addMember
      rw [hmine₁, hroom₁]
      dsimp only
      rw [hnext]
    constructor
    · intro hfull
      obtain ⟨id, hid⟩ := Room.genNextMemberId_isSome (w := w₁) (r := r) hfull
      rw [hid] at hnext
      cases hnext
    · rw [hhung]
      intro h
      obtain ⟨m, hm, hmc⟩ := h
      exact hout m hm hmc
  | some id =>
    have h : Untraced k (some r) p .userBanned w (PacketJoin.process env w₁ c p) :=
      (PacketJoin.process_refused hl₁ hk₁ hmine₁ hroom hnext ha₁).after_touch
    refine ⟨fun _ => h, ?_⟩
    intro hmember
    obtain ⟨m, hm, hmc⟩ := hmember
    obtain ⟨id', hroom'⟩ := h.counter r rfl
    rw [hroom'] at hm
    rw [h.memberAt r m hm] at hmc
    exact hout m hm hmc

end

/-- A client gets into a room that still has an id for it exactly if the rules of the room admit
it, and a request that is refused leaves no trace. -/
theorem run_joins_gated (env : Env) (es : List Event) (sv : AuthServices) (k : ConnectionPtr) (c : ClientPtr)
    (msg : Json) (p : PacketJoin) (hc : findClientByConnection (run env es) k = some c)
    (hread : Packet.read env.unset msg = .ok (some (.join p))) :
    let w := run env es
    let w' := Server.onMessage env sv w k (some msg)
    (∀ r, Server.getRoomByName w p.target = some r → r ∉ (w.clientAt c).rooms →
      (w.roomAt r).members.elems.length < 2 ^ 32 - 1 →
      ((∃ m ∈ (w'.roomAt r).members, (w'.memberAt m).client = c) ↔ Client.Admitted w c r) ∧
        (¬ Client.Admitted w c r → Untraced k (some r) p .userBanned w w')) ∧
    (∀ r ∈ (w.clientAt c).rooms, (w.roomAt r).name = p.target → Untraced k none p .alreadyConnected w w') ∧
    (Server.getRoomByName w p.target = none → Untraced k none p .notFound w w') := by
  intro w w'
  have hw : WF env w := wf_run env es
  obtain ⟨hcl, hk⟩ := findClientByConnection_spec hw hc
  let w₁ := w.modifyClient c fun cli => { cli with lastPacketTime := w.now }
  have hw' : w' = PacketJoin.process env w₁ c p := Server.onMessage_read hc hread sv
  have hk₁ : (w₁.clientAt c).connection = some k := by simpa [w₁] using hk
  have hl : w.membership.Linked := hw.linked
  have htouch : Frame w w₁ :=
    Frame.modifyClient w c (fun cli => { cli with lastPacketTime := w.now }) rfl rfl rfl rfl
  have hl₁ : w₁.membership.Linked := htouch.membership ▸ hl
  have hmine : Client.getRoomByName w₁ c p.target = Client.getRoomByName w c p.target :=
    Client.getRoomByName_touch w c w.now p.target
  rw [hw']
  refine ⟨fun r hroom hr hfull => ?_, fun r hr hname => ?_, fun hroom => ?_⟩
  · have hmine₁ := hmine.trans (Client.getRoomByName_of_not_mem hl hroom hr)
    obtain ⟨id, hid⟩ := Room.genNextMemberId_isSome (w := w₁) (r := r) hfull
    have hadmitted : Client.Admitted w₁ c r ↔ Client.Admitted w c r := by
      simp [Client.Admitted, Client.isAdmin, w₁]
    have hrefused : ¬ Client.Admitted w c r → _ := fun ha => Server.onMessage_refused hw hc hread hroom hr ha sv
    rw [← hw']
    refine ⟨⟨fun hmember => ?_, fun ha => ?_⟩, fun ha => (hrefused ha).1 hfull⟩
    · by_contra ha
      exact (hrefused ha).2 hmember
    · rw [hw']
      have hframe := (PacketJoin.process_accepted env hmine₁ hroom hid (hadmitted.mpr ha)).frame
      have hin : (⟨w₁.nextMember⟩ : MemberPtr) ∈ (PacketJoin.process env w₁ c p).membership.members r ∧
          (PacketJoin.process env w₁ c p).membership.who ⟨w₁.nextMember⟩ = c := by
        rw [hframe.membership]
        simp [World.membership, World.enter]
      exact ⟨_, hin.1, hin.2⟩
  · have hmine₁ := hmine.trans (hname ▸ Client.getRoomByName_of_mem hl hr)
    exact (PacketJoin.process_member hk₁ hmine₁).after_touch
  · have hmine₁ := hmine.trans (Client.getRoomByName_of_absent hl hroom)
    exact (PacketJoin.process_absent hk₁ hmine₁ hroom).after_touch

def Sample.closed : List Event :=
  room ++ [sends 7 1 (line (utf8 "/banuid 0")), opens 8 3 99 mem_c]

theorem run_joins_gated_guest :
    let w := run Sample.surroundings Sample.closed
    let p : PacketJoin := { target := utf8 "#room", loadHistory := false }
    Untraced ⟨3⟩ (some ⟨0⟩) p .userBanned w
      (Server.onMessage Sample.surroundings Sample.bob w ⟨3⟩ (some (Sample.ofTarget 6))) := by
  intro w p
  have h := run_joins_gated Sample.surroundings Sample.closed Sample.bob ⟨3⟩ ⟨2⟩ (Sample.ofTarget 6) p
    (by decide +kernel) (by rfl)
  refine (h.1 ⟨0⟩ (by decide +kernel) (by decide +kernel) (by decide +kernel)).2 ?_
  rintro (⟨ha | h0⟩ | hban)
  · revert ha
    decide +kernel
  · exact h0.1 (by decide +kernel)
  · exact hban.2 (by decide +kernel)

def Sample.anyAddress : Env := { surroundings with realIp := fun k => decimal k.addr }

/-- The token whose letters are the bits of the number. -/
def Sample.numberToken (n : Nat) : Token :=
  ⟨(List.range tokenLength).map fun i => if n.testBit i then 97 else 98, by simp, fun b hb => by
    obtain ⟨i, -, rfl⟩ := List.mem_map.mp hb
    split
    · exact mem_a
    · exact mem_b⟩

theorem Sample.numberToken_inj {n m : Nat} (hn : n < 2 ^ 64) (hm : m < 2 ^ 64)
    (h : (numberToken n).1 = (numberToken m).1) : n = m := by
  refine Nat.eq_of_testBit_eq fun i => ?_
  by_cases hi : i < tokenLength
  · have hletters : ((List.range tokenLength).map fun i => if n.testBit i then (97 : UInt8) else 98) =
        (List.range tokenLength).map fun i => if m.testBit i then 97 else 98 := h
    have hletter := List.map_inj_left.mp hletters i (List.mem_range.mpr hi)
    revert hletter
    cases n.testBit i <;> cases m.testBit i <;> simp
  · have hle : 2 ^ 64 ≤ 2 ^ i := Nat.pow_le_pow_right (by omega) (Nat.le_of_not_lt hi)
    rw [Nat.testBit_lt_two_pow (Nat.lt_of_lt_of_le hn hle), Nat.testBit_lt_two_pow (Nat.lt_of_lt_of_le hm hle)]

def Sample.arrives (n : Nat) : Event := ⟨0, .connected ⟨n⟩ [numberToken n]⟩

def Sample.crowd : Nat → List Event
  | 0 => [arrives 0, sends 0 0 login, sends 0 0 (ofTarget 8)]
  | n + 1 => crowd n ++ [arrives (n + 1), sends 0 (n + 1) (ofTarget 6)]

structure Sample.Crowded (n m : Nat) (w : World) : Prop where
  hung : w.hung = false
  opened : ∀ k ∈ w.opened, k.addr ≤ n
  token : ∀ c ∈ w.manager.clients, ∃ i ≤ n, (w.clientAt c).token = (numberToken i).1
  connected : ∀ c ∈ w.manager.clients, (w.clientAt c).connection.isSome
  room : Server.getRoomByName w (utf8 "#room") = some ⟨0⟩
  bansNobody : (w.roomAt ⟨0⟩).bannedIps = ∅ ∧ (w.roomAt ⟨0⟩).bannedUids = ∅
  members : (w.roomAt ⟨0⟩).members.elems.length = m

theorem Sample.crowded_zero : Crowded 0 0 (run anyAddress (crowd 0)) := by
  have hclients : (run anyAddress (crowd 0)).manager.clients = [⟨0⟩] := by decide +kernel
  have hopened : (run anyAddress (crowd 0)).opened = [⟨0⟩] := by decide +kernel
  have hips : ((run anyAddress (crowd 0)).roomAt ⟨0⟩).bannedIps.elems = [] := by decide +kernel
  have huids : ((run anyAddress (crowd 0)).roomAt ⟨0⟩).bannedUids.elems = [] := by decide +kernel
  refine ⟨by decide +kernel, ?_, ?_, ?_, by decide +kernel, ⟨IterSet.ext hips, IterSet.ext huids⟩, by decide +kernel⟩
  · rw [hopened]
    simp
  · rw [hclients]
    refine fun c hc => ⟨0, Nat.le_refl 0, ?_⟩
    cases List.mem_singleton.mp hc
    decide +kernel
  · rw [hclients]
    intro c hc
    cases List.mem_singleton.mp hc
    decide +kernel

theorem ClientsManager.connect_fresh {token : Token} (env : Env) (w : World) (k : ConnectionPtr)
    (h : w.manager.tokenToClient.lookup token.1 = none) :
    let w' := connect env w k [token]
    let c : ClientPtr := ⟨w.nextClient⟩
    w'.clientAt = Function.update w.clientAt c (w'.clientAt c) ∧
      (w'.clientAt c).connection = some k ∧ (w'.clientAt c).token = token.1 ∧ (w'.clientAt c).rooms = ∅ ∧
      (w'.clientAt c).uid = 0 ∧ w'.manager.clients = w.manager.clients ++ [c] ∧
      w'.hung = w.hung ∧ w'.opened = w.opened ∧ w'.rooms = w.rooms := by
  intro w' c
  have hfind : [token].find? (fun t => !(w.manager.tokenToClient.lookup t.1).isSome) = some token := by
    rw [List.find?_cons_of_pos]
    simp [h]
  have hw' : w' = connect env w k [token] := rfl
  unfold connect at hw'
  rw [hfind] at hw'
  rw [hw']
  refine ⟨?_, ?_, ?_, ?_, ?_, ?_, ?_, ?_, ?_⟩
  · funext d
    by_cases hd : d = c
    · subst hd
      simp
    · simp [Client.setConnection, hd, c]
  all_goals simp [Client.setConnection, c]

theorem Sample.Crowded.token_free {n m : Nat} {w : World} (h : Crowded n m w) (hw : WF anyAddress w)
    (hn : n + 1 < 2 ^ 64) : w.manager.tokenToClient.lookup (numberToken (n + 1)).1 = none := by
  refine Option.eq_none_iff_forall_ne_some.mpr fun d hd => ?_
  obtain ⟨hcl, htoken⟩ := (hw.indexed.tokenIff _ d).mp hd
  obtain ⟨i, hi, he⟩ := h.token d hcl
  have hsame := numberToken_inj (by omega) hn (he.symm.trans htoken)
  omega

theorem Sample.Crowded.nobody_from {n m : Nat} {w : World} (h : Crowded n m w) (hw : WF anyAddress w) :
    w.registry.clientsFrom (anyAddress.realIp ⟨n + 1⟩) = 0 := by
  refine List.countP_eq_zero.mpr fun d hd => ?_
  obtain ⟨k, hk⟩ := Option.isSome_iff_exists.mp (h.connected d hd)
  have hip : w.registry.lastClientIP d = anyAddress.realIp k := hw.indexed.address d hd k hk
  have hle := h.opened k (hw.indexed.opened d hd k hk)
  have hne : k.addr ≠ n + 1 := by omega
  have happart : anyAddress.realIp k ≠ anyAddress.realIp ⟨n + 1⟩ := fun he => hne (decimal_injective he)
  simpa [hip] using happart

theorem Sample.Crowded.step_arrives {n m : Nat} {w : World} (h : Crowded n m w) (hw : WF anyAddress w) :
    w.step anyAddress (Sample.arrives (n + 1)) =
      connect anyAddress (World.arrival anyAddress { w with now := 0 } ⟨n + 1⟩) ⟨n + 1⟩ [numberToken (n + 1)] := by
  have hnew : (⟨n + 1⟩ : ConnectionPtr) ∉ w.opened := by
    intro hk
    have hle := h.opened _ hk
    simp at hle
  let w₀ : World := { w with now := 0 }
  have hw₀ : WF anyAddress w₀ := hw.chore (.clock 0)
  let w₁ := w₀.arrival anyAddress ⟨n + 1⟩
  have hempty : w₁.registry.clientsFrom (anyAddress.realIp ⟨n + 1⟩) = 0 := h.nobody_from hw
  have hco : w₁.registry.Counted := World.arrival_counted hw₀
  have hconns := hco.connections (anyAddress.realIp ⟨n + 1⟩)
  have hle := Registry.liveFrom_le w₁.registry (anyAddress.realIp ⟨n + 1⟩)
  have hopen : w.step anyAddress (Sample.arrives (n + 1)) =
      Server.onOpen anyAddress { w₀ with opened := ⟨n + 1⟩ :: w₀.opened } ⟨n + 1⟩ [numberToken (n + 1)] := by
    rw [World.step_running h.hung]
    exact if_neg hnew
  rw [hopen]
  obtain ⟨hfull, -⟩ | ⟨-, ⟨-, he⟩ | ⟨d, hd, -, hnone, -, -⟩⟩ :=
    Server.onOpen_cases anyAddress hw₀ ⟨n + 1⟩ [numberToken (n + 1)]
  · change 5 ≤ (w₁.registry.counterAt (anyAddress.realIp ⟨n + 1⟩)).connections at hfull
    omega
  · exact he
  · have hsome := h.connected d hd
    have hnone' : (w.clientAt d).connection = none := hnone
    rw [hnone'] at hsome
    cases hsome

theorem Sample.Crowded.arrives {n m : Nat} {w : World} (h : Crowded n m w) (hw : WF anyAddress w)
    (hn : n + 1 < 2 ^ 64) :
    let w' := w.step anyAddress (arrives (n + 1))
    Crowded (n + 1) m w' ∧ ∃ c, findClientByConnection w' ⟨n + 1⟩ = some c ∧ (w'.clientAt c).rooms = ∅ := by
  have hstep := h.step_arrives hw
  generalize hw₁ : World.arrival anyAddress { w with now := 0 } ⟨n + 1⟩ = w₁ at hstep
  have hfree : w₁.manager.tokenToClient.lookup (numberToken (n + 1)).1 = none := hw₁ ▸ h.token_free hw hn
  obtain ⟨hat, hconn, htoken, hrooms, huid, hcl, hhung, hopened, hr⟩ := connect_fresh anyAddress w₁ ⟨n + 1⟩ hfree
  have hheap := (connect_heap anyAddress w₁ ⟨n + 1⟩ [numberToken (n + 1)]).2
  have hw' : WF anyAddress (connect anyAddress w₁ ⟨n + 1⟩ [numberToken (n + 1)]) := hstep ▸ hw.step _
  subst hw₁
  have hfresh : (⟨w.nextClient⟩ : ClientPtr) ∉ w.manager.clients := fun hin => Nat.lt_irrefl _ (hw.indexed.fresh _ hin)
  generalize connect anyAddress _ ⟨n + 1⟩ [numberToken (n + 1)] = w' at *
  have hold : ∀ d ∈ w.manager.clients, w'.clientAt d = w.clientAt d := by
    intro d hd
    have hne : d ≠ ⟨w.nextClient⟩ := fun he => hfresh (he ▸ hd)
    rw [hat]
    exact Function.update_of_ne hne _ _
  have hmem : ∀ d ∈ w'.manager.clients, d ∈ w.manager.clients ∨ d = ⟨w.nextClient⟩ := by
    intro d hd
    rw [hcl] at hd
    exact (List.mem_append.mp hd).imp_right List.mem_singleton.mp
  rw [hstep]
  refine ⟨⟨hhung.trans h.hung, ?_, ?_, ?_, ?_, ?_, ?_⟩, ⟨w.nextClient⟩, ?_, hrooms⟩
  · rw [hopened]
    intro k hk
    cases List.mem_cons.mp hk with
    | inl he =>
      subst he
      exact Nat.le_refl _
    | inr hk => exact Nat.le_succ_of_le (h.opened k hk)
  · intro d hd
    cases hmem d hd with
    | inl hd =>
      rw [hold d hd]
      obtain ⟨i, hi, he⟩ := h.token d hd
      exact ⟨i, Nat.le_succ_of_le hi, he⟩
    | inr he =>
      subst he
      exact ⟨n + 1, Nat.le_refl _, htoken⟩
  · intro d hd
    cases hmem d hd with
    | inl hd =>
      rw [hold d hd]
      exact h.connected d hd
    | inr he =>
      subst he
      exact Option.isSome_iff_exists.mpr ⟨_, hconn⟩
  · unfold Server.getRoomByName
    rw [hheap, hr]
    exact h.room
  · rw [hheap]
    exact h.bansNobody
  · rw [hheap]
    exact h.members
  · refine (hw'.indexed.connIff _ _).mpr ⟨?_, hconn⟩
    change _ ∈ w'.manager.clients
    rw [hcl]
    exact List.mem_append_right _ (List.mem_singleton_self _)

theorem Sample.Crowded.enters {n m k : Nat} {w : World} {c : ClientPtr} (h : Crowded n m w) (hw : WF anyAddress w)
    (hm : m < 2 ^ 32 - 1) (hc : findClientByConnection w ⟨k⟩ = some c) (hout : (w.clientAt c).rooms = ∅) :
    Crowded n (m + 1) (w.step anyAddress (sends 0 k (ofTarget 6))) := by
  let w₁ : World := World.modifyClient { w with now := 0 } c fun cli => { cli with lastPacketTime := 0 }
  let p : PacketJoin := { target := utf8 "#room", loadHistory := false }
  have hread : Packet.read anyAddress.unset (ofTarget 6) = .ok (some (.join p)) := rfl
  have hstep : w.step anyAddress (sends 0 k (ofTarget 6)) = PacketJoin.process anyAddress w₁ c p := by
    rw [World.step_running h.hung]
    exact Server.onMessage_read (w := { w with now := 0 }) hc hread bob
  have hroom : Server.getRoomByName w₁ p.target = some ⟨0⟩ := h.room
  have hmine : Client.getRoomByName w₁ c p.target = none := by
    have hrooms : (w₁.clientAt c).rooms = ∅ := by simpa [w₁] using hout
    unfold Client.getRoomByName
    rw [hrooms]
    rfl
  have hfull : (w₁.roomAt ⟨0⟩).members.elems.length < 2 ^ 32 - 1 := h.members.symm ▸ hm
  obtain ⟨id, hid⟩ := Room.genNextMemberId_isSome hfull
  have hadmitted : Client.Admitted w₁ c ⟨0⟩ := by
    refine .inr ⟨?_, ?_⟩
    · rw [show (w₁.roomAt ⟨0⟩).bannedIps = ∅ from h.bansNobody.1]
      exact IterSet.not_mem_empty _
    · rw [show (w₁.roomAt ⟨0⟩).bannedUids = ∅ from h.bansNobody.2]
      exact IterSet.not_mem_empty _
  have hsettled := PacketJoin.process_accepted anyAddress hmine hroom hid hadmitted
  have hnew : (⟨w₁.nextMember⟩ : MemberPtr) ∉ (w₁.roomAt ⟨0⟩).members :=
    fun hin => Nat.lt_irrefl _ (hw.linked.issued ⟨0⟩ _ hin)
  have hreg : (PacketJoin.process anyAddress w₁ c p).registry = w.registry := by
    rw [hsettled.frame.registry, (enter_evolves w₁ c ⟨0⟩ id).registry]
    exact (Frame.modifyClient { w with now := 0 } c (fun cli => { cli with lastPacketTime := 0 }) rfl rfl rfl rfl).registry
  have hclients : (PacketJoin.process anyAddress w₁ c p).manager.clients = w.manager.clients :=
    congrArg Registry.clients hreg
  have hnames : ∀ s, ((w₁.enter c ⟨0⟩ id).roomAt s).name = (w.roomAt s).name := by
    intro s
    by_cases hs : s = ⟨0⟩ <;> simp [World.enter, w₁, hs]
  rw [hstep]
  refine ⟨hsettled.frame.hung.trans h.hung, ?_, ?_, ?_, ?_, ?_, ?_⟩
  · rw [show (PacketJoin.process anyAddress w₁ c p).opened = w.opened from congrArg Registry.opened hreg]
    exact h.opened
  · intro d hd
    rw [hclients] at hd
    rw [show ((PacketJoin.process anyAddress w₁ c p).clientAt d).token = (w.clientAt d).token from
      congrArg (fun g => g.token d) hreg]
    exact h.token d hd
  · intro d hd
    rw [hclients] at hd
    rw [show ((PacketJoin.process anyAddress w₁ c p).clientAt d).connection = (w.clientAt d).connection from
      congrArg (fun g => g.connection d) hreg]
    exact h.connected d hd
  · have hroom' := h.room
    unfold Server.getRoomByName at hroom' ⊢
    rw [hsettled.rooms, hsettled.roomAt]
    simp only [hnames]
    exact hroom'
  · rw [hsettled.roomAt]
    simpa [World.enter, w₁] using h.bansNobody
  · rw [hsettled.roomAt]
    have hmembers : ((w₁.enter c ⟨0⟩ id).roomAt ⟨0⟩).members =
        (w₁.roomAt ⟨0⟩).members.insert ⟨w₁.nextMember⟩ w₁.order.members := by
      simp [World.enter]
    rw [hmembers, (IterSet.elems_insert hnew).length_eq, List.length_cons]
    exact congrArg (· + 1) h.members

theorem run_append (env : Env) (es es' : List Event) : run env (es ++ es') = es'.foldl (World.step env) (run env es) :=
  List.foldl_append

theorem Sample.crowded (n : Nat) (hn : n ≤ 2 ^ 32 - 1) : Crowded n n (run anyAddress (crowd n)) := by
  induction n with
  | zero => exact crowded_zero
  | succ n ih =>
    have hbefore := ih (by omega)
    have hw := wf_run anyAddress (crowd n)
    obtain ⟨harrived, c, hc, hout⟩ := hbefore.arrives hw (by omega)
    have hentered := harrived.enters (hw.step _) (by omega) hc hout
    rw [crowd, run_append]
    exact hentered

theorem Sample.Crowded.full {n m : Nat} {w : World} {k : ConnectionPtr} {c : ClientPtr} (h : Crowded n m w)
    (hm : m = 2 ^ 32 - 1) (hw : WF anyAddress w) (hs : Seated w) (hc : findClientByConnection w k = some c)
    (hout : (w.clientAt c).rooms = ∅) :
    let w' := Server.onMessage anyAddress bob w k (some (ofTarget 6))
    Client.Admitted w c ⟨0⟩ ∧ w'.hung = true ∧ ¬ ∃ m ∈ (w'.roomAt ⟨0⟩).members, (w'.memberAt m).client = c := by
  let w₁ := w.modifyClient c fun cli => { cli with lastPacketTime := w.now }
  let p : PacketJoin := { target := utf8 "#room", loadHistory := false }
  have hread : Packet.read anyAddress.unset (ofTarget 6) = .ok (some (.join p)) := rfl
  have hprocess : Server.onMessage anyAddress bob w k (some (ofTarget 6)) = PacketJoin.process anyAddress w₁ c p :=
    Server.onMessage_read hc hread bob
  have hnone : Room.genNextMemberId w₁ ⟨0⟩ = none :=
    Room.genNextMemberId_full (hs.congr rfl fun _ => rfl) (h.members.trans hm)
  have hmine : Client.getRoomByName w₁ c p.target = none := by
    have hrooms : (w₁.clientAt c).rooms = ∅ := by simpa [w₁] using hout
    unfold Client.getRoomByName
    rw [hrooms]
    rfl
  have hroom : Server.getRoomByName w₁ p.target = some ⟨0⟩ := h.room
  have hhung : PacketJoin.process anyAddress w₁ c p = { w₁ with hung := true } := by
    unfold PacketJoin.process Client.joinRoom Room.addMember
    rw [hmine, hroom]
    dsimp only
    rw [hnone]
  dsimp only
  rw [hprocess, hhung]
  refine ⟨.inr ⟨?_, ?_⟩, rfl, ?_⟩
  · rw [h.bansNobody.1]
    exact IterSet.not_mem_empty _
  · rw [h.bansNobody.2]
    exact IterSet.not_mem_empty _
  · rintro ⟨m, hm, hmc⟩
    have hin : (⟨0⟩ : RoomPtr) ∈ (w.clientAt c).rooms := (hw.linked.joinedIff c ⟨0⟩).mpr ⟨m, hm, hmc⟩
    rw [hout] at hin
    exact IterSet.not_mem_empty _ hin

/-- Where all ids are taken, a guest whom nothing bans does not get in. -/
theorem run_joins_gated_full :
    ∃ es k c,
      let env := Sample.anyAddress
      let w := run env es
      let w' := Server.onMessage env Sample.bob w k (some (Sample.ofTarget 6))
      let p : PacketJoin := { target := utf8 "#room", loadHistory := false }
      findClientByConnection w k = some c ∧ Packet.read {} (Sample.ofTarget 6) = .ok (some (.join p)) ∧
        Server.getRoomByName w p.target = some ⟨0⟩ ∧ (⟨0⟩ : RoomPtr) ∉ (w.clientAt c).rooms ∧
        Client.Admitted w c ⟨0⟩ ∧ w'.hung = true ∧ ¬ ∃ m ∈ (w'.roomAt ⟨0⟩).members, (w'.memberAt m).client = c := by
  obtain ⟨n, hn⟩ : ∃ n, n = 2 ^ 32 - 1 := ⟨_, rfl⟩
  have hbefore := Sample.crowded n (Nat.le_of_eq hn)
  have hlt : n + 1 < 2 ^ 64 := by omega
  obtain ⟨hcrowded, c, hc, hout⟩ := hbefore.arrives (wf_run _ _) hlt
  have hrun : (run Sample.anyAddress (Sample.crowd n)).step Sample.anyAddress (Sample.arrives (n + 1)) =
      run Sample.anyAddress (Sample.crowd n ++ [Sample.arrives (n + 1)]) := by
    rw [run_append]
    rfl
  rw [hrun] at hcrowded hc hout
  obtain ⟨hadmitted, hhung, hno⟩ := hcrowded.full hn (wf_run _ _) (seated_run _ _) hc hout
  refine ⟨_, ⟨n + 1⟩, c, hc, rfl, hcrowded.room, ?_, hadmitted, hhung, hno⟩
  rw [hout]
  exact IterSet.not_mem_empty _

end WsChat
