import WsChat.Departures
import WsChat.Credentials
import WsChat.Lib.Matching

/-! The moves of a packet once more and in full: who is told what, which member or list is changed, and by what
right. -/
namespace WsChat
open Lib Relation ClientsManager

/-- Packets that tell only their receiver something, and nothing of anyone. -/
def Packet.Notice : Packet → Prop
  | .message _ | .onlineList _ | .auth _ | .status _ | .join _ => False
  | _ => True

def Packet.Answer (w : World) (c : ClientPtr) : Packet → Prop
  | .auth p => p.userId = (w.clientAt c).uid ∧ p.name = (w.clientAt c).name ∧ p.token = (w.clientAt c).token
  | p => p.Notice

structure World.Holds (w : World) (c : ClientPtr) (r : RoomPtr) (m : MemberPtr) : Prop where
  mem : m ∈ (w.roomAt r).members
  client : (w.memberAt m).client = c
  room : (w.memberAt m).room = r

inductive Revised {α : Type} [DecidableEq α] (admin : Bool) (limit : Nat) (s : IterSet α) : IterSet α → Prop
  | same : Revised admin limit s s
  | erase (a : α) : Revised admin limit s (s.erase a)
  | insert (a : α) (h : admin = true ∨ s.size ≤ limit) : Revised admin limit s (s.insert a)

/-- A colour that `/color` sets: a hash sign and three or six hexadecimal digits. -/
def CommandColor.Hex (color : Bytes) : Prop :=
  ∃ digits : Bytes, color = 35 :: digits ∧ (∀ b ∈ digits, Rx.isHex b) ∧ (digits.length = 3 ∨ digits.length = 6)

/-- The feats that leave the registry alone and everyone where they are. -/
inductive Still (env : Env) (c : ClientPtr) (w : World) : World → Prop
  | answer (p : Packet) (hp : p.Notice) : Still env c w (w.emit (w.mail c (.packet p)))
  | list (r : RoomPtr) (sequenceId : Option UInt32) (hr : r ∈ (w.clientAt c).rooms) :
      Still env c w (w.emit (w.mail c (.packet (.onlineList (PacketOnlineList.ofRoom w r sequenceId)))))
  | touch (packetTime messageTime messageCounter : Int) :
      Still env c w (w.modifyClient c fun cli => { cli with
        lastPacketTime := packetTime, lastMessageTime := messageTime, messageCounter := messageCounter })
  | say (r : RoomPtr) (m : MemberPtr) (style : Style) (text : Bytes) (hm : w.Holds c r m) :
      Still env c w (Room.say env w r { PacketMessage.ofMember w m text with style := style })
  | whisper (r : RoomPtr) (m m2 : MemberPtr) (text : Bytes) (hm : w.Holds c r m) (hm2 : m2 ∈ (w.roomAt r).members) :
      Still env c w (w.emit
        (w.mail (w.memberAt m).client (.packet (.message (PacketMessage.ofMembers w m m2 text))) ++
          w.mail (w.memberAt m2).client (.packet (.message (PacketMessage.ofMembers w m m2 text)))))
  | presence (r : RoomPtr) (m : MemberPtr) (stat : Status) (hm : w.Holds c r m) :
      Still env c w
        (let w' := Member.setStatus w m (if stat = .back then .online else .away)
        w'.emit (w'.roomMail r (.packet (.status (PacketStatus.ofMember w' m stat)))))
  | typing (r : RoomPtr) (m : MemberPtr) (stat : Status) (hm : w.Holds c r m) :
      Still env c w (w.emit (w.roomMail r (.packet (.status (PacketStatus.ofMember w m stat)))))
  | restyle (r : RoomPtr) (m : MemberPtr) (girl : Bool) (color : Bytes) (stat : Status) (hm : w.Holds c r m)
      (hcolor : color = (w.memberAt m).color ∨ CommandColor.Hex color) :
      Still env c w (Member.announce env
        (w.modifyMember m fun mem => { mem with girl := girl, color := color }) m stat)
  | dress (r : RoomPtr) (m : MemberPtr) (girl : Bool) (color : Bytes) (hm : w.Holds c r m)
      (hcolor : color = (w.clientAt c).color ∨
        ∃ info, Room.getStoredMemberInfo w r m = some info ∧ color = info.color) :
      Still env c w (w.modifyMember m fun mem => { mem with girl := girl, color := color })
  | rename (r : RoomPtr) (m : MemberPtr) (nick : Bytes) (hm : w.Holds c r m) :
      Still env c w
        (let w' := w.modifyMember m fun mem => { mem with nick := nick }
        w'.emit (w'.roomMail r (.packet (.status (Member.nickPacket w' m (w.memberAt m).nick)))))
  | ban (r : RoomPtr) (m : MemberPtr) (nicks ips : IterSet Bytes) (uids : IterSet UInt32) (hm : w.Holds c r m)
      (hright : Member.isModer w m) (hnicks : Revised (w.clientAt c).isAdmin 100 (w.roomAt r).bannedNicks nicks)
      (hips : Revised (w.clientAt c).isAdmin 100 (w.roomAt r).bannedIps ips)
      (huids : Revised (w.clientAt c).isAdmin 100 (w.roomAt r).bannedUids uids) :
      Still env c w (w.modifyRoom r fun rm => { rm with
        bannedNicks := nicks, bannedIps := ips, bannedUids := uids })
  | appoint (r : RoomPtr) (m : MemberPtr) (moderators : IterSet UInt32) (hm : w.Holds c r m)
      (hright : Member.isOwner w m) (hmods : Revised (w.clientAt c).isAdmin 10 (w.roomAt r).moderators moderators)
      (hguest : 0 ∈ moderators → 0 ∈ (w.roomAt r).moderators) :
      Still env c w (w.modifyRoom r fun rm => { rm with moderators := moderators })

/-- The feats that nobody comes into a room by. -/
inductive Feat (env : Env) (c : ClientPtr) (w : World) : World → Prop
  | still {w' : World} (h : Still env c w w') : Feat env c w w'
  | hang : Feat env c w { w with hung := true }
  | refuse (r : RoomPtr) (id : UInt32) : Feat env c w (w.issue c r id)
  | leave (r : RoomPtr) (hr : r ∈ (w.clientAt c).rooms) : Feat env c w (Client.leaveRoom env w c r)
  | kick (r : RoomPtr) (m m2 : MemberPtr) (hm : w.Holds c r m) (hright : Member.isModer w m)
      (hm2 : m2 ∈ (w.roomAt r).members) : Feat env c w (Room.kickMember env w r m2)
  | create (name : Bytes) (hfull : Rx.roomName.fullMatch name) (hname : Server.getRoomByName w name = none)
      (huid : (w.clientAt c).uid ≠ 0) :
      Feat env c w ((w.found name).modifyRoom ⟨w.nextRoom⟩ fun rm => { rm with ownerId := (w.clientAt c).uid })
  | raze (r : RoomPtr) (name : Bytes) (hr : Server.getRoomByName w name = some r) (hguard : Client.MayRaze w c r) :
      Feat env c w (Server.removeRoom env w name)

abbrev Stills (env : Env) (c : ClientPtr) : World → World → Prop := ReflTransGen (Still env c)

abbrev Feats (env : Env) (c : ClientPtr) : World → World → Prop := ReflTransGen (Feat env c)

/-- What a packet of the client does: feats, or the client gets the identity of an account that the packet proves,
or it enters a room and the rest leaves everyone there, or the session whose token the packet presents continues on
its connection. -/
inductive Course (env : Env) (sv : AuthServices) (c : ClientPtr) (p : Packet) (w : World) : World → Prop
  | feats {w' : World} (h : Feats env c w w') : Course env sv c p w w'
  | login (a : PacketAuth) (user : Option DbUserInfo) (q : Packet) (ha : p = .auth a)
      (hproved : ∀ info ∈ user, a.Proved env sv ((w.clientAt c).connection.bind env.sinid) info)
      (hq : q.Answer (user.elim w (PacketAuth.initUser env w c)) c) :
      Course env sv c p w
        (let w' := user.elim w (PacketAuth.initUser env w c)
        w'.emit (w'.mail c (.packet q)))
  | enter {w' : World} (r : RoomPtr) (id : UInt32) (sequenceId : Option UInt32) (loadHistory : Bool)
      (hc : c ∈ w.manager.clients) (hr : r ∈ w.rooms) (hcr : r ∉ (w.clientAt c).rooms)
      (hid : Room.genNextMemberId w r = some id) (ha : Client.Admitted w c r)
      (h : Stills env c
        (let w' := w.enter c r id
        w'.emit (w'.welcomeMail c r ⟨w.nextMember⟩ sequenceId loadHistory)) w') : Course env sv c p w w'
  | revive (a : PacketAuth) (t : ClientPtr) (k : ConnectionPtr) (q : Packet) (ha : p = .auth a)
      (htoken : a.token ≠ [] ∧ (w.clientAt t).token = a.token) (hq : q.Answer w t) (hc : c ∈ w.manager.clients)
      (ht : t ∈ w.manager.clients) (hct : c ≠ t) (hk : (w.clientAt c).connection = some k) :
      Course env sv c p w (Server.reviveClient env (w.emit [(k, .packet q)]) c t).1

section
variable {env : Env} {w w' : World} {c : ClientPtr} {r : RoomPtr} {m : MemberPtr}

theorem feats_still (h : Still env c w w') : Feats env c w w' := .single (.still h)

theorem Stills.feats (h : Stills env c w w') : Feats env c w w' :=
  ReflTransGen.mono (fun _ _ hs => Feat.still hs) w w' h

theorem Still.frame (h : Still env c w w') : Frame w w' := by
  cases h with
  | answer | list | whisper | typing => exact Frame.emit w _
  | touch => exact Frame.modifyClient w c _ rfl rfl rfl rfl
  | say r =>
    rw [Room.say_eq]
    exact (Frame.modifyRoom w r _ rfl rfl).trans (Frame.emit _ _)
  | presence r m => exact (Frame.modifyMember w m _ rfl rfl).trans (Frame.emit _ _)
  | restyle r m =>
    rw [Member.announce_eq]
    exact (Frame.modifyMember w m _ rfl rfl).trans (Frame.emit _ _)
  | dress r m => exact Frame.modifyMember w m _ rfl rfl
  | rename r m => exact (Frame.modifyMember w m _ rfl rfl).trans (Frame.emit _ _)
  | ban r => exact Frame.modifyRoom w r _ rfl rfl
  | appoint r => exact Frame.modifyRoom w r _ rfl rfl

theorem Stills.frame (h : Stills env c w w') : Frame w w' := by
  induction h with
  | refl => exact .refl w
  | tail _ hs ih => exact ih.trans hs.frame

theorem Stills.linked (hs : Stills env c w w') (h : w.membership.Linked) : w'.membership.Linked := by
  rw [hs.frame.membership]
  exact h

theorem World.Holds.of_find (h : w.membership.Linked) (hfind : Room.findMemberByClient w r c = some m) :
    w.Holds c r m := by
  obtain ⟨hm, hc⟩ := Room.mem_of_findMemberByClient hfind
  exact ⟨hm, hc, h.home r m hm⟩

theorem World.Holds.frame (hm : w.Holds c r m) (hf : Frame w w') : w'.Holds c r m := by
  refine ⟨?_, ?_, ?_⟩
  · exact (Set.ext_iff.mp (congrFun (congrArg Membership.members hf.membership) r) m).mpr hm.mem
  · exact (congrFun (congrArg Membership.who hf.membership) m).trans hm.client
  · exact (congrFun (congrArg Membership.home hf.membership) m).trans hm.room

theorem Client.answer_still {p : Packet} (hp : p.Notice) : Still env c w (Client.sendPacket w c p) := by
  rw [Client.sendPacket_eq]
  exact .answer p hp

theorem Client.answer_stills {p : Packet} (hp : p.Notice) : Stills env c w (Client.sendPacket w c p) :=
  .single (Client.answer_still hp)

theorem Client.answer_feats {p : Packet} (hp : p.Notice) : Feats env c w (Client.sendPacket w c p) :=
  (Client.answer_stills hp).feats

theorem Member.reply_stills (hc : (w.memberAt m).client = c) (msg : Bytes) :
    Stills env c w (Member.reply w m msg) := by
  unfold Member.reply Member.sendPacket
  rw [hc]
  exact Client.answer_stills trivial

theorem RegexParser.next_read {parser parser' : RegexParser} {rx : Regex UInt8} (h : parser.next rx = (true, parser')) :
    ∃ p q, q ∈ rx.run p ∧ parser'.read 0 = some (p.since q) := by
  unfold RegexParser.next at h
  split at h
  · cases h
  · cases hs : rx.search parser.nextInput with
    | none =>
      rw [hs] at h
      cases h
    | some m =>
      rw [hs] at h
      obtain ⟨rfl⟩ := Prod.mk.inj h |>.2
      obtain ⟨t, ht, rfl⟩ := Option.map_eq_some_iff.mp hs
      exact ⟨t.1, t.2, Regex.mem_of_searchFrom ht, by simp [RegexParser.read]⟩

theorem Rx.color_reads {p q : Regex.Pos UInt8} (h : q ∈ Rx.color.run p) :
    ∃ digits : Bytes, (p.since q = digits ∨ p.since q = 35 :: digits) ∧ (∀ b ∈ digits, Rx.isHex b) ∧
      (digits.length = 3 ∨ digits.length = 6) := by
  obtain ⟨p₁, hbol, h⟩ := List.mem_flatMap.mp h
  obtain ⟨p₂, hsign, h⟩ := List.mem_flatMap.mp h
  obtain ⟨q', hdigits, rfl⟩ := List.mem_map.mp h
  have hp₁ : p₁ = p := by
    unfold Regex.run at hbol
    split at hbol
    · exact List.mem_singleton.mp hbol
    · cases hbol
  subst hp₁
  have hnumber : ∃ u : Bytes, q'.seen = u.reverse ++ p₂.seen ∧ (u.length = 3 ∨ u.length = 6) ∧
      ∀ b ∈ u, Rx.isHex b := by
    cases List.mem_append.mp hdigits with
    | inl hsix =>
      obtain ⟨u, hseen, hlen, hall⟩ := Regex.mem_run_rep_exact _ hsix
      exact ⟨u, hseen, .inr hlen, hall⟩
    | inr hthree =>
      obtain ⟨u, hseen, hlen, hall⟩ := Regex.mem_run_rep_exact _ hthree
      exact ⟨u, hseen, .inl hlen, hall⟩
  obtain ⟨u, hseen, hlen, hall⟩ := hnumber
  refine ⟨u, ?_, hall, hlen⟩
  rw [Regex.opt, Regex.lit, Regex.run_rep _ 0 (some 1) (fun m _ => Nat.zero_le m)] at hsign
  obtain ⟨j, hj, rfl⟩ := List.mem_map.mp hsign
  obtain ⟨-, hreach⟩ := Regex.mem_turns.mp hj
  have hone : Regex.reach (fun b : UInt8 => decide (b = 35)) (some 1) p₁.rest ≤ 1 := Nat.min_le_left _ _
  cases j with
  | zero =>
    left
    exact Regex.Pos.since_eq hseen
  | succ j =>
    have hj0 : j = 0 := by omega
    obtain ⟨b, hb, hb35⟩ := Regex.reach_get (lt_of_lt_of_le (Nat.succ_pos j) hreach)
    right
    apply Regex.Pos.since_eq
    rw [hseen, hj0]
    have htake : p₁.rest.take 1 = [35] := by
      cases hrest : p₁.rest with
      | nil => simp [hrest] at hb
      | cons a rest => simp [hrest] at hb hb35 ⊢; rw [hb, hb35]
    simp [Regex.Pos.skip, htake]

theorem CommandColor.argument_hex {parser : RegexParser} (h : CommandColor.argument parser ≠ []) :
    CommandColor.Hex (CommandColor.argument parser) := by
  unfold CommandColor.argument at h ⊢
  cases hnext : parser.next Rx.color with
  | mk found parser' =>
    rw [hnext] at h
    cases found with
    | false => exact absurd rfl h
    | true =>
      obtain ⟨p, q, hq, hread⟩ := RegexParser.next_read hnext
      obtain ⟨digits, htext, hall, hlen⟩ := Rx.color_reads hq
      simp only [hread]
      cases htext with
      | inr hsign =>
        rw [hsign]
        exact ⟨digits, rfl, hall, hlen⟩
      | inl hbare =>
        rw [hbare]
        refine ⟨digits, ?_, hall, hlen⟩
        split
        · rename_i clr hs
          have := hall 35 (by rw [Option.some.inj hs]; exact List.mem_cons_self)
          exact absurd this (by decide)
        · rename_i he
          rw [Option.some.inj he]
        · rename_i he
          cases he

theorem Member.setNick_stills {nick : Bytes} (hm : w.Holds c r m) : Stills env c w (Member.setNick env w m nick) := by
  unfold Member.setNick
  dsimp only
  rw [hm.room]
  split
  · exact .refl
  · split
    · unfold Member.sendPacket
      rw [hm.client]
      exact Client.answer_stills trivial
    · rw [Room.sendPacketToAll_status]
      exact .single (.rename r m nick hm)

theorem ban_stills {f : Room → Room} (nicks ips : IterSet Bytes) (uids : IterSet UInt32) (hm : w.Holds c r m)
    (hright : Member.isModer w m)
    (hf : f (w.roomAt r) = { w.roomAt r with bannedNicks := nicks, bannedIps := ips, bannedUids := uids })
    (hnicks : Revised (w.clientAt c).isAdmin 100 (w.roomAt r).bannedNicks nicks)
    (hips : Revised (w.clientAt c).isAdmin 100 (w.roomAt r).bannedIps ips)
    (huids : Revised (w.clientAt c).isAdmin 100 (w.roomAt r).bannedUids uids) :
    Stills env c w (w.modifyRoom r f) := by
  rw [modifyRoom_congr (g := fun rm => { rm with
    bannedNicks := nicks, bannedIps := ips, bannedUids := uids }) hf]
  exact .single (.ban r m nicks ips uids hm hright hnicks hips huids)

theorem appoint_stills {f : Room → Room} (moderators : IterSet UInt32) (hm : w.Holds c r m)
    (hright : Member.isOwner w m) (hf : f (w.roomAt r) = { w.roomAt r with moderators := moderators })
    (hmods : Revised (w.clientAt c).isAdmin 10 (w.roomAt r).moderators moderators)
    (hguest : 0 ∈ moderators → 0 ∈ (w.roomAt r).moderators) : Stills env c w (w.modifyRoom r f) := by
  rw [modifyRoom_congr (g := fun rm => { rm with moderators := moderators }) hf]
  exact .single (.appoint r m moderators hm hright hmods hguest)

theorem Member.within_limit {size limit : Nat} (hm : w.Holds c r m) (h : ¬ Member.overLimit w m size limit = true) :
    (w.clientAt c).isAdmin = true ∨ size ≤ limit := by
  unfold Member.overLimit Member.isAdmin at h
  rw [hm.client] at h
  cases hadmin : (w.clientAt c).isAdmin with
  | true => exact .inl rfl
  | false =>
    refine .inr (Nat.not_lt.mp fun hlt => h ?_)
    simp [hadmin, hlt]

section
variable {parser : RegexParser} (hm : w.Holds c r m)
include hm

theorem command_reply_stills (msg : Bytes) : Stills env c w (Member.reply w m msg) := Member.reply_stills hm.client msg

theorem CommandNick.process_stills : Stills env c w (CommandNick.process env w m parser) := by
  unfold CommandNick.process
  dsimp only
  split
  · split
    · exact command_reply_stills hm _
    · exact Member.setNick_stills hm
  · exact command_reply_stills hm _

theorem CommandStyledMessage.process_stills {style : Style} :
    Stills env c w (CommandStyledMessage.process env style w m parser) := by
  unfold CommandStyledMessage.process
  dsimp only
  split
  · exact command_reply_stills hm _
  · rw [hm.room]
    exact .single (.say r m style _ hm)

theorem Member.whisper_stills {m2 : Option MemberPtr} {smsg : Bytes} (hm2 : ∀ n ∈ m2, n ∈ (w.roomAt r).members) :
    Stills env c w (Member.whisper w m m2 smsg) := by
  unfold Member.whisper
  split
  · exact command_reply_stills hm _
  · cases m2 with
    | none => exact command_reply_stills hm _
    | some m2 =>
      simp only [Member.sendPacket_eq, World.emit_emit]
      exact .single (.whisper r m m2 smsg hm (hm2 m2 rfl))

theorem CommandPrivateMessage.process_stills : Stills env c w (CommandPrivateMessage.process w m parser) := by
  apply Member.whisper_stills hm
  intro n hfind
  rw [hm.room] at hfind
  exact List.mem_of_find?_eq_some hfind

theorem CommandPrivateMessageById.process_stills : Stills env c w (CommandPrivateMessageById.process w m parser) := by
  apply Member.whisper_stills hm
  intro n hfind
  rw [hm.room] at hfind
  exact List.mem_of_find?_eq_some (Option.filter_eq_some_iff.mp hfind).1

theorem CommandGender.process_stills : Stills env c w (CommandGender.process env w m parser) := by
  have hset : ∀ girl, Stills env c w (Member.announce env (Member.setGirl w m girl) m .genderChange) := by
    intro girl
    rw [Member.setGirl, modifyMember_congr (g := fun mem =>
      { mem with girl := girl, color := (w.memberAt m).color }) rfl]
    exact .single (.restyle r m girl _ .genderChange hm (.inl rfl))
  exact hset _

theorem Command.withNick_feats {act : Bytes → World} (h : ∀ nick, Feats env c w (act nick)) :
    Feats env c w (Command.withNick w m parser act) := by
  unfold Command.withNick
  dsimp only
  split
  · exact (command_reply_stills hm _).feats
  · exact h _

theorem Command.withNick_stills {act : Bytes → World} (h : ∀ nick, Stills env c w (act nick)) :
    Stills env c w (Command.withNick w m parser act) := by
  unfold Command.withNick
  dsimp only
  split
  · exact command_reply_stills hm _
  · exact h _

theorem Command.withUid_stills {act : UInt32 → World} (h : ∀ uid, Stills env c w (act uid)) :
    Stills env c w (Command.withUid w m parser act) := by
  unfold Command.withUid
  split
  · exact h _
  · exact command_reply_stills hm _

theorem Command.withIp_stills {refusal : Bytes} {act : Bytes → World} (h : ∀ ip, Stills env c w (act ip)) :
    Stills env c w (Command.withIp w m parser refusal act) := by
  unfold Command.withIp
  split
  · exact h _
  · exact command_reply_stills hm _

theorem Command.update_stills {changes : Bool} {f : Room → Room} {done same : Bytes}
    (h : Stills env c w (w.modifyRoom r f)) : Stills env c w (Command.update w m changes f done same) := by
  unfold Command.update
  rw [hm.room]
  split
  · exact h.trans (Member.reply_stills (w := w.modifyRoom r f) hm.client _)
  · exact command_reply_stills hm _

theorem CommandBanNick.process_feats (hright : Member.isModer w m) :
    Feats env c w (CommandBanNick.process env w m parser) := by
  unfold CommandBanNick.process
  dsimp only
  rw [hm.room]
  split
  · exact (command_reply_stills hm _).feats
  · rename_i hlimit
    apply Command.withNick_feats hm
    intro nick
    split
    · exact (command_reply_stills hm _).feats
    · have hban : Stills env c w (w.modifyRoom r fun rm => { rm with bannedNicks := rm.bannedNicks.insert nick }) :=
        ban_stills _ _ _ hm hright rfl (.insert nick (Member.within_limit hm hlimit)) .same .same
      have hm' := hm.frame (Stills.frame hban)
      have hright' : Member.isModer
          (w.modifyRoom r fun rm => { rm with bannedNicks := rm.bannedNicks.insert nick }) m := by
        rw [← hright]
        refine Member.isModer_congr rfl rfl rfl ?_ ?_ <;> simp [hm.room]
      refine hban.feats.trans ?_
      generalize (w.modifyRoom r fun rm => { rm with bannedNicks := rm.bannedNicks.insert nick }) = w₁ at hm' hright' ⊢
      cases hm2 : Room.findMemberByNick w₁ r nick with
      | none => exact (Member.reply_stills hm'.client _).feats
      | some m2 =>
        refine (ReflTransGen.single (.kick r m m2 hm' hright' (List.mem_of_find?_eq_some hm2))).trans ?_
        refine (Member.reply_stills ?_ _).feats
        rw [Room.kickMember_eq]
        exact hm'.client

theorem CommandUnbanNick.process_stills (hright : Member.isModer w m) :
    Stills env c w (CommandUnbanNick.process w m parser) := by
  apply Command.withNick_stills hm
  intro nick
  apply Command.update_stills hm
  exact ban_stills _ _ _ hm hright rfl (.erase nick) .same .same

theorem CommandBanUid.process_stills (hright : Member.isModer w m) :
    Stills env c w (CommandBanUid.process w m parser) := by
  unfold CommandBanUid.process
  dsimp only
  split
  · exact command_reply_stills hm _
  · rename_i hlimit
    rw [hm.room] at hlimit
    apply Command.withUid_stills hm
    intro uid
    apply Command.update_stills hm
    exact ban_stills _ _ _ hm hright rfl .same .same (.insert uid (Member.within_limit hm hlimit))

theorem CommandUnbanUid.process_stills (hright : Member.isModer w m) :
    Stills env c w (CommandUnbanUid.process w m parser) := by
  apply Command.withUid_stills hm
  intro uid
  apply Command.update_stills hm
  exact ban_stills _ _ _ hm hright rfl .same .same (.erase uid)

theorem CommandBanIp.process_stills (hright : Member.isModer w m) :
    Stills env c w (CommandBanIp.process w m parser) := by
  unfold CommandBanIp.process
  dsimp only
  split
  · exact command_reply_stills hm _
  · rename_i hlimit
    rw [hm.room] at hlimit
    apply Command.withIp_stills hm
    intro ip
    apply Command.update_stills hm
    exact ban_stills _ _ _ hm hright rfl .same (.insert ip (Member.within_limit hm hlimit)) .same

theorem CommandUnbanIp.process_stills (hright : Member.isModer w m) :
    Stills env c w (CommandUnbanIp.process w m parser) := by
  apply Command.withIp_stills hm
  intro ip
  apply Command.update_stills hm
  exact ban_stills _ _ _ hm hright rfl .same (.erase ip) .same

theorem CommandKick.process_feats (hright : Member.isModer w m) :
    Feats env c w (CommandKick.process env w m parser) := by
  unfold CommandKick.process
  dsimp only
  rw [hm.room]
  cases hm2 : Room.findMemberByNick w r parser.suffix with
  | none => exact (command_reply_stills hm _).feats
  | some m2 => exact .single (.kick r m m2 hm hright (List.mem_of_find?_eq_some hm2))

theorem CommandAddModer.process_stills (hright : Member.isOwner w m) :
    Stills env c w (CommandAddModer.process w m parser) := by
  unfold CommandAddModer.process
  dsimp only
  split
  · exact command_reply_stills hm _
  · rename_i hlimit
    rw [hm.room] at hlimit
    apply Command.withUid_stills hm
    intro uid
    split
    · exact command_reply_stills hm _
    · rename_i hguest
      apply Command.update_stills hm
      refine appoint_stills _ hm hright rfl (.insert uid (Member.within_limit hm hlimit)) fun hin => ?_
      rcases IterSet.mem_insert.mp hin with he | hin
      · exact absurd he.symm hguest
      · exact hin

theorem CommandDelModer.process_stills (hright : Member.isOwner w m) :
    Stills env c w (CommandDelModer.process w m parser) := by
  apply Command.withUid_stills hm
  intro uid
  apply Command.update_stills hm
  exact appoint_stills _ hm hright rfl (.erase uid) fun hin => (IterSet.mem_erase.mp hin).2

theorem CommandColor.process_stills : Stills env c w (CommandColor.process env w m parser) := by
  unfold CommandColor.process
  dsimp only
  split
  · exact command_reply_stills hm _
  · rename_i hne
    rw [Member.setColor, modifyMember_congr (g := fun mem => { mem with
      girl := (w.memberAt m).girl, color := CommandColor.argument parser }) rfl]
    exact .single (.restyle r m _ _ .colorChange hm (.inr (CommandColor.argument_hex hne)))

theorem Command.process_feats {cmd : Command} (hmoder : cmd ∈ cmdModer → Member.isModer w m)
    (howner : cmd ∈ cmdOwner → Member.isOwner w m) : Feats env c w (cmd.process env w m parser) := by
  cases cmd with
  | nick => exact (CommandNick.process_stills hm).feats
  | gender => exact (CommandGender.process_stills hm).feats
  | color => exact (CommandColor.process_stills hm).feats
  | styledMessage style => exact (CommandStyledMessage.process_stills hm).feats
  | privateMessage => exact (CommandPrivateMessage.process_stills hm).feats
  | privateMessageById => exact (CommandPrivateMessageById.process_stills hm).feats
  | banNick => exact CommandBanNick.process_feats hm (hmoder (by decide))
  | banUid => exact (CommandBanUid.process_stills hm (hmoder (by decide))).feats
  | banIp => exact (CommandBanIp.process_stills hm (hmoder (by decide))).feats
  | unbanNick => exact (CommandUnbanNick.process_stills hm (hmoder (by decide))).feats
  | unbanUid => exact (CommandUnbanUid.process_stills hm (hmoder (by decide))).feats
  | unbanIp => exact (CommandUnbanIp.process_stills hm (hmoder (by decide))).feats
  | kick => exact CommandKick.process_feats hm (hmoder (by decide))
  | addModer => exact (CommandAddModer.process_stills hm (howner (by decide))).feats
  | delModer => exact (CommandDelModer.process_stills hm (howner (by decide))).feats
  | help | myRoomList | moderList | banList | userList | roomList | ipCounter =>
    exact (command_reply_stills hm _).feats

theorem PacketMessage.processCommand_feats {msg : Bytes} (h : PacketMessage.processCommand env w m r msg = some w') :
    Feats env c w w' := by
  have hbad : ∀ p : PacketSystem, Feats env c w (Member.sendPacket w m (.system p)) := by
    intro p
    unfold Member.sendPacket
    rw [hm.client]
    exact Client.answer_feats trivial
  unfold PacketMessage.processCommand at h
  split at h
  · cases h
  · dsimp only at h
    split at h
    · cases h
      exact hbad _
    · split at h
      · rename_i command hfind
        cases h
        obtain ⟨hmoder, howner, -⟩ := PacketMessage.findCommand_rights hfind
        exact Command.process_feats hm hmoder howner
      · cases h
        exact hbad _

end

theorem touch_stills {f : Client → Client} (packetTime messageTime messageCounter : Int)
    (h : f (w.clientAt c) = { w.clientAt c with
      lastPacketTime := packetTime, lastMessageTime := messageTime, messageCounter := messageCounter }) :
    Stills env c w (w.modifyClient c f) := by
  rw [modifyClient_congr (g := fun cli => { cli with
    lastPacketTime := packetTime, lastMessageTime := messageTime, messageCounter := messageCounter }) h]
  exact .single (.touch _ _ _)

theorem PacketMessage.resetFlood_stills : Stills env c w (PacketMessage.resetFlood w c) := by
  unfold PacketMessage.resetFlood
  split
  · exact touch_stills _ _ _ rfl
  · exact .refl

theorem PacketMessage.process_feats (h : w.membership.Linked) (p : PacketMessage) :
    Feats env c w (PacketMessage.process env w c p) := by
  unfold PacketMessage.process
  split
  · exact .refl
  · have hreset : Stills env c w (PacketMessage.resetFlood w c) := PacketMessage.resetFlood_stills
    refine hreset.feats.trans ?_
    have h₁ := hreset.linked h
    generalize PacketMessage.resetFlood w c = w₁ at h₁ ⊢
    dsimp only
    split
    · exact Client.answer_feats trivial
    · split
      · exact Client.answer_feats trivial
      · have hcount : Stills env c w₁ (w₁.modifyClient c fun cli =>
            { cli with messageCounter := cli.messageCounter + 1 }) := touch_stills _ _ _ rfl
        refine hcount.feats.trans ?_
        have h₂ := hcount.linked h₁
        generalize w₁.modifyClient c _ = w₂ at h₂ ⊢
        cases hroom : Client.getRoomByName w₂ c p.target with
        | none => exact Client.answer_feats trivial
        | some r =>
          obtain ⟨hr, -⟩ := Client.mem_of_getRoomByName hroom
          obtain ⟨m, hfind⟩ := Room.findMemberByClient_isSome h₂ hr
          have hm := World.Holds.of_find h₂ hfind
          dsimp only
          rw [hfind]
          dsimp only
          split
          · rename_i w' hcmd
            exact PacketMessage.processCommand_feats hm hcmd
          · split
            · exact Client.answer_feats trivial
            · exact feats_still (.say r m .message p.message hm)

theorem PacketOnlineList.process_feats (p : PacketOnlineList) : Feats env c w (PacketOnlineList.process w c p) := by
  unfold PacketOnlineList.process
  cases hroom : Client.getRoomByName w c p.target with
  | none => exact Client.answer_feats trivial
  | some r =>
    dsimp only
    rw [Client.sendPacket_eq]
    exact feats_still (.list r none (Client.mem_of_getRoomByName hroom).1)

theorem PacketAuth.answer_mail (sv : AuthServices) (p : PacketAuth) (result : Except AuthExit Unit) :
    ∃ q : Packet, q.Answer w c ∧ PacketAuth.answer sv p c result w = w.emit (w.mail c (.packet q)) := by
  have hreply : ∃ q : Packet, q.Answer w c ∧
      Client.sendPacket w c (PacketAuth.reply w p c) = w.emit (w.mail c (.packet q)) :=
    ⟨PacketAuth.reply w p c, ⟨rfl, rfl, rfl⟩, Client.sendPacket_eq w c _⟩
  have hrefuse : ∀ code info, ∃ q : Packet, q.Answer w c ∧
      Client.sendPacket w c (p.refuse code info) = w.emit (w.mail c (.packet q)) :=
    fun code info => ⟨p.refuse code info, trivial, Client.sendPacket_eq w c _⟩
  unfold PacketAuth.answer
  split
  · exact hrefuse _ _
  · split
    · exact hrefuse _ _
    · exact hreply
  · exact hreply
  · exact hreply

theorem PacketAuth.processLogin_course (sv : AuthServices) (p : PacketAuth) :
    Course env sv c (.auth p) w (PacketAuth.processLogin env sv w c p) := by
  rw [PacketAuth.processLogin_eq]
  have hends := PacketAuth.authenticate_ends env sv (w.clientAt c).lastClientIP
    ((w.clientAt c).connection.bind env.sinid) p
  unfold Ends at hends
  generalize (PacketAuth.authenticate env sv _ _ p).run {} = outcome at hends ⊢
  obtain ⟨q, hq, he⟩ := PacketAuth.answer_mail (w := outcome.2.user.elim w (PacketAuth.initUser env w c)) (c := c)
    sv p outcome.1
  dsimp only
  rw [he]
  exact .login p outcome.2.user q rfl hends.2.1 hq

theorem PacketAuth.target_spec (h : WF env w) {p : PacketAuth} {t : ClientPtr} (ht : PacketAuth.target w c p = some t) :
    (p.token ≠ [] ∧ (w.clientAt t).token = p.token) ∧ t ∈ w.manager.clients ∧ c ≠ t := by
  unfold PacketAuth.target at ht
  split at ht
  · cases ht
  · rename_i hsome
    obtain ⟨hlook, hne⟩ := Option.filter_eq_some_iff.mp ht
    obtain ⟨hin, htoken⟩ := (h.indexed.tokenIff p.token t).mp hlook
    exact ⟨⟨hsome, htoken⟩, hin, Ne.symm (by simpa using hne)⟩

theorem PacketAuth.process_course (h : WF env w) (hc : c ∈ w.manager.clients) {k : ConnectionPtr}
    (hk : (w.clientAt c).connection = some k) (sv : AuthServices) (p : PacketAuth) :
    Course env sv c (.auth p) w (PacketAuth.process env sv w c p) := by
  unfold PacketAuth.process
  cases sv.construct with
  | error _ =>
    rw [Client.sendPacket_eq]
    exact .login p none _ rfl nofun ⟨rfl, rfl, rfl⟩
  | ok _ =>
    dsimp only
    cases ht : PacketAuth.target w c p with
    | none => exact PacketAuth.processLogin_course sv p
    | some t =>
      obtain ⟨htoken, ht, hct⟩ := PacketAuth.target_spec h ht
      dsimp only
      rw [Client.sendPacket_eq, World.mail, hk]
      exact .revive p t k _ rfl htoken ⟨rfl, rfl, rfl⟩ hc ht hct hk

theorem PacketStatus.process_feats (h : w.membership.Linked) (p : PacketStatus) :
    Feats env c w (PacketStatus.process env w c p) := by
  unfold PacketStatus.process
  split
  · refine Stills.feats (foldl_steps (P := fun w : World => w.membership.Linked)
      (fun _ _ hw hs => Stills.linked (.single hs) hw) _ _ ?_ h)
    intro w' h' r _
    unfold PacketStatus.presenceRoom
    split
    · exact .refl
    · rename_i m hfind
      split
      · rw [Room.sendPacketToAll_status]
        exact .single (.presence r m p.status (World.Holds.of_find h' hfind))
      · exact .refl
  · split
    · split
      · exact .refl
      · split
        · exact .refl
        · rename_i r hroom _ m hfind
          split
          · rw [Room.sendPacketToAll_status]
            exact feats_still (.typing r m p.status (World.Holds.of_find h hfind))
          · exact .refl
    · exact .refl

theorem PacketLeave.process_feats (p : PacketTarget) : Feats env c w (PacketLeave.process env w c p) := by
  unfold PacketLeave.process
  cases hroom : Client.getRoomByName w c p.target with
  | none => exact Client.answer_feats trivial
  | some r =>
    exact (ReflTransGen.single (.leave r (Client.mem_of_getRoomByName hroom).1)).trans
      (Client.answer_feats trivial)

theorem PacketCreateRoom.process_feats (p : PacketTarget) : Feats env c w (PacketCreateRoom.process w c p) := by
  unfold PacketCreateRoom.process
  split
  · exact Client.answer_feats trivial
  · rename_i hguest
    split
    · exact Client.answer_feats trivial
    · rename_i hfull
      cases hroom : Server.getRoomByName w p.target with
      | some r =>
        simp only [Server.createRoom, hroom]
        exact Client.answer_feats trivial
      | none =>
        have hcreate : Feat env c w _ := .create p.target (by simpa using hfull) hroom
          (by simpa [Client.isGuest] using hguest)
        simp only [Server.createRoom_eq hroom]
        exact (ReflTransGen.single hcreate).trans (Client.answer_feats trivial)

theorem PacketRemoveRoom.process_feats (p : PacketTarget) : Feats env c w (PacketRemoveRoom.process env w c p) := by
  unfold PacketRemoveRoom.process
  split
  · exact Client.answer_feats trivial
  · rename_i hguest
    cases hroom : Server.getRoomByName w p.target with
    | none => exact Client.answer_feats trivial
    | some r =>
      dsimp only
      split
      · rename_i hmay
        have hguard : Client.MayRaze w c r := by
          simp only [Client.isAdmin, Bool.or_eq_true, beq_iff_eq] at hmay
          simp only [Client.isGuest] at hguest
          simp only [Client.MayRaze, Client.isAdmin, Client.isGuest, Bool.or_eq_true, beq_iff_eq]
          exact hmay.imp_right fun hu => ⟨hguest, hu⟩
        exact (ReflTransGen.single (.raze r p.target hroom hguard)).trans (Client.answer_feats trivial)
      · exact Client.answer_feats trivial

theorem PacketJoin.restore_stills (hm : w.Holds c r m) : Stills env c w (PacketJoin.restore w c r m).2 := by
  unfold PacketJoin.restore
  split
  · rename_i info hinfo
    simp only [Member.setColor, Member.setGirl, World.modifyMember, Function.update_idem, Function.update_self]
    exact .single (.dress r m _ _ hm (.inr ⟨info, hinfo, rfl⟩))
  · simp only [Member.setColor, Member.setGirl, World.modifyMember, Function.update_idem, Function.update_self]
    exact .single (.dress r m _ _ hm (.inl rfl))

theorem Member.system_stills (hc : (w.memberAt m).client = c) (p : PacketSystem) :
    Stills env c w (Member.sendPacket w m (.system p)) := by
  unfold Member.sendPacket
  rw [hc]
  exact Client.answer_stills trivial

theorem PacketJoin.checkNick_stills {nick : Bytes} (hc : (w.memberAt m).client = c) :
    Stills env c w (PacketJoin.checkNick w r m nick).2 := by
  unfold PacketJoin.checkNick
  split
  rename_i nick' w' hgiven
  have hfirst : Stills env c w w' ∧ w'.memberAt = w.memberAt := by
    split at hgiven
    · rw [← (Prod.mk.inj hgiven).2]
      refine ⟨Member.system_stills hc _, ?_⟩
      rw [Member.sendPacket_eq]
      rfl
    · rw [← (Prod.mk.inj hgiven).2]
      exact ⟨.refl, rfl⟩
  obtain ⟨hsteps, hmember⟩ := hfirst
  split
  · exact hsteps.trans (Member.system_stills (by rw [hmember]; exact hc) _)
  · exact hsteps

theorem PacketJoin.autoNick_stills {p : PacketJoin} (hm : w.Holds c r m) :
    Stills env c w (PacketJoin.autoNick w c r m p).2 := by
  unfold PacketJoin.autoNick
  split
  · have hrestore : Stills env c w (PacketJoin.restore w c r m).2 := PacketJoin.restore_stills hm
    obtain ⟨girl, color, hw⟩ := PacketJoin.restore_world w c r m
    refine hrestore.trans (PacketJoin.checkNick_stills ?_)
    rw [hw]
    simpa using hm.client
  · exact .refl

theorem PacketJoin.settle_stills {nick : Bytes} (hm : w.Holds c r m) :
    Stills env c w (PacketJoin.settle env w m nick) := by
  have hnick : ∀ p : PacketSystem, Stills env c (Member.sendPacket w m (.system p))
      (Member.setNick env (Member.sendPacket w m (.system p)) m nick) := by
    intro p
    rw [Member.sendPacket_eq]
    exact Member.setNick_stills ⟨hm.mem, hm.client, hm.room⟩
  have hask : ∀ p q : PacketSystem, Stills env c (Member.sendPacket w m (.system p))
      (Member.sendPacket (Member.sendPacket w m (.system p)) m (.system q)) := by
    intro p q
    refine Member.system_stills ?_ q
    rw [Member.sendPacket_eq]
    exact hm.client
  unfold PacketJoin.settle
  dsimp only
  split
  · exact (Member.system_stills hm.client _).trans (hask _ _)
  · exact (Member.system_stills hm.client _).trans (hnick _)

theorem PacketJoin.welcome_stills {p : PacketJoin} (hm : w.Holds c r m) :
    Stills env c (w.emit (w.welcomeMail c r m p.sequenceId p.loadHistory)) (PacketJoin.welcome env w c r m p) := by
  rw [PacketJoin.welcome_eq]
  have hm' : World.Holds (w.emit (w.welcomeMail c r m p.sequenceId p.loadHistory)) c r m := ⟨hm.mem, hm.client, hm.room⟩
  exact (PacketJoin.autoNick_stills hm').trans (PacketJoin.settle_stills
    (hm'.frame (PacketJoin.autoNick_settled _ c r m p).frame))

theorem PacketJoin.process_course (sv : AuthServices) (hc : c ∈ w.manager.clients) (p : PacketJoin) :
    Course env sv c (.join p) w (PacketJoin.process env w c p) := by
  unfold PacketJoin.process
  cases hmine : Client.getRoomByName w c p.target with
  | some r => exact .feats (Client.answer_feats trivial)
  | none =>
    cases hroom : Server.getRoomByName w p.target with
    | none => exact .feats (Client.answer_feats trivial)
    | some r =>
      obtain ⟨hr, hname⟩ := Server.mem_of_getRoomByName hroom
      have hcr : r ∉ (w.clientAt c).rooms := by
        intro hin
        have := List.find?_eq_none.mp hmine r hin
        simp [hname] at this
      dsimp only
      rcases Client.joinRoom_cases w c r with ⟨id, hid, hjoin⟩ | hjoin
      · by_cases ha : Client.Admitted w c r
        · rw [Client.joinRoom_admitted hid ha]
          refine .enter r id p.sequenceId p.loadHistory hc hr hcr hid ha (PacketJoin.welcome_stills ⟨?_, ?_, ?_⟩)
          all_goals simp [World.enter]
        · obtain ⟨e, he, hrefused⟩ := Client.joinRoom_refused hid ha
          rw [hrefused]
          have hissue : Feats env c w (w.issue c r id) := .single (.refuse r id)
          cases e with
          | hung => exact absurd rfl he
          | bannedByIP => exact .feats (hissue.trans (Client.answer_feats trivial))
          | bannedByID => exact .feats (hissue.trans (Client.answer_feats trivial))
      · rw [hjoin]
        exact .feats (.single .hang)

/-- What a packet does is a course of its sender. -/
theorem Packet.process_course (h : WF env w) (hc : c ∈ w.manager.clients) {k : ConnectionPtr}
    (hk : (w.clientAt c).connection = some k) (sv : AuthServices) (p : Packet) :
    Course env sv c p w (p.process env sv w c) := by
  cases p with
  | error | system | ping => exact .feats .refl
  | message p => exact .feats (PacketMessage.process_feats h.linked p)
  | onlineList p => exact .feats (PacketOnlineList.process_feats p)
  | auth p => exact PacketAuth.process_course h hc hk sv p
  | status p => exact .feats (PacketStatus.process_feats h.linked p)
  | join p => exact PacketJoin.process_course sv hc p
  | leave p => exact .feats (PacketLeave.process_feats p)
  | createRoom p => exact .feats (PacketCreateRoom.process_feats p)
  | removeRoom p => exact .feats (PacketRemoveRoom.process_feats p)

theorem WF.feat (h : WF env w) (hf : Feat env c w w') : WF env w' := by
  cases hf with
  | still hs => exact h.frame hs.frame
  | hang => exact h.hang
  | refuse r id => exact h.relink (issue_evolves w c r id) (h.linked.issue w.not_issued)
  | leave r hr =>
    obtain ⟨m, hm, -, he⟩ := Client.leaveRoom_evolves env h.linked hr
    exact h.relink he (h.linked.expel hm)
  | kick r m m2 _ _ hm2 => exact h.relink Room.kickMember_evolves (h.linked.expel hm2)
  | create name _ hname _ =>
    refine h.relink ((found_evolves w name).then_frame (Frame.modifyRoom _ _ _ rfl rfl)) (h.linked.found ?_ ?_)
    · exact fun hr => Nat.lt_irrefl _ hr
    · exact Server.not_mem_of_getRoomByName hname
  | raze r name hr => exact h.relink (Server.removeRoom_evolves h.linked hr) h.linked.raze

theorem Feats.keep {P : World → Prop} (hkeep : ∀ w w', WF env w → P w → Feat env c w w' → P w')
    (h : Feats env c w w') (hw : WF env w) (hp : P w) : P w' :=
  steps_preserve_under (fun _ _ hw hf => hw.feat hf) hkeep h hw hp

theorem Feat.registry (hw : WF env w) (hf : Feat env c w w') : w'.registry = w.registry := by
  cases hf with
  | still hs => exact hs.frame.registry
  | hang => rfl
  | refuse r id => exact (issue_evolves w c r id).registry
  | leave r hr =>
    obtain ⟨n, -, -, he⟩ := Client.leaveRoom_evolves env hw.linked hr
    exact he.registry
  | kick r m m2 =>
    have he : Evolves w w.registry _ (Room.kickMember env w r m2) := Room.kickMember_evolves
    exact he.registry
  | create name => exact (found_evolves w name).registry
  | raze r name hr =>
    have he : Evolves w w.registry _ (Server.removeRoom env w name) := Server.removeRoom_evolves hw.linked hr
    exact he.registry

theorem Feats.registry (h : Feats env c w w') (hw : WF env w) : w'.registry = w.registry :=
  Feats.keep (P := fun w' => w'.registry = w.registry) (fun _ _ hw he hf => (hf.registry hw).trans he) h hw rfl

/-- What comes of a message: nothing, or a packet of the client whose connection it came on, whose arrival is noted
before it takes its course. -/
theorem World.message_course (h : WF env w) {e : Event} {k : ConnectionPtr} {msg : Option Json} {sv : AuthServices}
    (hact : e.act = .message k msg sv) :
    ((w.hung = true ∨ (∀ c ∈ w.manager.clients, (w.clientAt c).connection ≠ some k) ∨ e.act.packet env = none) ∧
      w.step env e = { w with now := e.now }) ∨
    ∃ c p, c ∈ w.manager.clients ∧ (w.clientAt c).connection = some k ∧ e.act.packet env = some p ∧
      Course env sv c p (World.modifyClient { w with now := e.now } c fun cli => { cli with lastPacketTime := e.now })
        (w.step env e) := by
  have hw : WF env { w with now := e.now } := h.chore (.clock e.now)
  by_cases hhung : w.hung = false
  · have hstep : w.step env e = Server.onMessage env sv { w with now := e.now } k msg := by
      rw [World.step_running hhung, hact]
      rfl
    rw [hstep, hact]
    rcases Server.onMessage_cases hw sv k msg with ⟨hwhy, hdrop⟩ | ⟨c, p, hc, hk, hp, he⟩
    · exact .inl ⟨.inr hwhy, hdrop⟩
    · refine .inr ⟨c, p, hc, hk, hp, ?_⟩
      have htouch : Frame { w with now := e.now }
          (World.modifyClient { w with now := e.now } c fun cli => { cli with lastPacketTime := e.now }) :=
        Frame.modifyClient _ c _ rfl rfl rfl rfl
      rw [he]
      exact Packet.process_course (hw.frame htouch) hc (by simpa using hk) sv p
  · have hhung' : w.hung = true := Bool.eq_true_of_not_eq_false hhung
    refine .inl ⟨.inl hhung', ?_⟩
    unfold World.step
    rw [hhung', hact]

theorem World.step_course (h : WF env w) (e : Event) :
    Routines env { w with now := e.now } (w.step env e) ∨
    (∃ k msg sv c p, e.act = .message k msg sv ∧ c ∈ w.manager.clients ∧ (w.clientAt c).connection = some k ∧
      Course env sv c p (World.modifyClient { w with now := e.now } c fun cli => { cli with lastPacketTime := e.now })
        (w.step env e)) ∨
    (e.act = .save ∨ e.act = .restart) ∧ Chore env { w with now := e.now } (w.step env e) := by
  rcases World.step_cases h e with hr | ⟨⟨k, msg, sv, hact⟩, -⟩ | hs
  · exact .inl hr
  · rcases World.message_course h hact with ⟨-, hdrop⟩ | ⟨c, p, hc, hk, -, hcourse⟩
    · refine .inl ?_
      rw [hdrop]
    · exact .inr (.inl ⟨k, msg, sv, c, p, hact, hc, hk, hcourse⟩)
  · exact .inr (.inr hs)

/-- A property that the course of every packet and every chore keep holds after every run. -/
theorem run_course_invariant {P : World → Prop} {es : List Event} (hinit : P (World.boot env))
    (hcourse : ∀ e ∈ es, ∀ k msg sv c p w w', e.act = .message k msg sv → WF env w → Seated w → c ∈ w.manager.clients →
      (w.clientAt c).connection = some k → P w → Course env sv c p w w' → P w')
    (hchore : ∀ w w', WF env w → P w → Chore env w w' → P w') : P (run env es) := by
  induction es using List.reverseRecOn with
  | nil => exact hinit
  | append_singleton es e ih =>
    have hbefore := ih fun e' he' => hcourse e' (List.mem_append_left _ he')
    have hw := wf_run env es
    have hclock : P { run env es with now := e.now } := hchore _ _ hw hbefore (.clock e.now)
    have hw' : WF env { run env es with now := e.now } := hw.chore (.clock e.now)
    have hs' : Seated { run env es with now := e.now } := (seated_run env es).chore hw (.clock e.now)
    rw [run_append, List.foldl_cons, List.foldl_nil]
    rcases World.step_course hw e with hr | ⟨k, msg, sv, c, p, hact, hc, hk, hcourse'⟩ | ⟨-, hs⟩
    · exact steps_preserve_under (fun _ _ hw hc => hw.routine hc)
        (fun _ _ hw hp hr => hchore _ _ hw hp (.routine hr)) hr hw' hclock
    · have hlast := hcourse e (List.mem_append_right _ (List.mem_singleton_self e)) k msg sv c p
      have htouch : Stills env c { run env es with now := e.now }
          (World.modifyClient { run env es with now := e.now } c fun cli => { cli with lastPacketTime := e.now }) :=
        touch_stills _ _ _ rfl
      have hnoted := hlast _ _ hact hw' hs' hc hk hclock (.feats htouch.feats)
      refine hlast _ _ hact (hw'.frame htouch.frame) ?_ hc (by simpa using hk) hnoted hcourse'
      exact hs'.congr rfl fun _ => rfl
    · exact hchore _ _ hw' hclock hs

end
end WsChat
