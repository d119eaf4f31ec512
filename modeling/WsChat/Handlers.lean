import WsChat.Moves

/-! Every packet is processed in moves. -/
namespace WsChat
open Lib Relation

abbrev Steps (env : Env) (c : ClientPtr) (w₀ : World) (S : Bytes → Prop) : World → World → Prop :=
  ReflTransGen (Move env c w₀ S)

theorem modifyRoom_congr {w : World} {r : RoomPtr} {f g : Room → Room}
    (h : f (w.roomAt r) = g (w.roomAt r)) : w.modifyRoom r f = w.modifyRoom r g := by
  unfold World.modifyRoom
  rw [h]

theorem modifyMember_congr {w : World} {m : MemberPtr} {f g : Member → Member}
    (h : f (w.memberAt m) = g (w.memberAt m)) : w.modifyMember m f = w.modifyMember m g := by
  unfold World.modifyMember
  rw [h]

theorem modifyClient_congr {w : World} {c : ClientPtr} {f g : Client → Client}
    (h : f (w.clientAt c) = g (w.clientAt c)) : w.modifyClient c f = w.modifyClient c g := by
  unfold World.modifyClient
  rw [h]

theorem plain_mail {S : Bytes → Prop} {w : World} {c : ClientPtr} {x : Wire} (h : x.Plain S) :
    ∀ y ∈ w.mail c x, y.2.Plain S := by
  intro y hy
  rw [(World.mem_mail.mp hy).2]
  exact h

section
variable {env : Env} {c : ClientPtr} {w₀ w : World} {S : Bytes → Prop} {r : RoomPtr} {m : MemberPtr}

theorem WF.steps {w' : World} (h : WF env w) (hs : Steps env c w₀ S w w') : WF env w' :=
  steps_preserve (fun _ _ hw hm => hw.move hm) hs h

/-- The moves of a message, which nobody enters or leaves a room by but those who are kicked. -/
inductive Deed (env : Env) (c : ClientPtr) (w₀ : World) (S : Bytes → Prop) (w : World) : World → Prop
  | quiet {w' : World} (h : Quiet env c w₀ S w w') : Deed env c w₀ S w w'
  | kick (r : RoomPtr) (m : MemberPtr) (hS : S (w.roomAt r).name) (hm : m ∈ (w.roomAt r).members)
      (hguard : Client.Moderates w₀ c r) : Deed env c w₀ S w (Room.kickMember env w r m)
  | banKick (r : RoomPtr) (m : MemberPtr) (nick : Bytes) (hS : S (w.roomAt r).name)
      (hm : Room.findMemberByNick w r nick = some m) (hguard : Client.Moderates w₀ c r) (hcalm : Calm w₀ w) :
      Deed env c w₀ S w (Room.kickMember env
        (w.modifyRoom r fun rm => { rm with bannedNicks := rm.bannedNicks.insert nick }) r m)

abbrev Deeds (env : Env) (c : ClientPtr) (w₀ : World) (S : Bytes → Prop) : World → World → Prop :=
  ReflTransGen (Deed env c w₀ S)

theorem Deeds.steps {w' : World} (h : Deeds env c w₀ S w w') : Steps env c w₀ S w w' := by
  refine ReflTransGen.mono ?_ w w' h
  intro w w' hd
  cases hd with
  | quiet hq => exact .quiet hq
  | kick r m hS hm hguard => exact .kick r m hS hm hguard
  | banKick r m nick hS hm hguard hcalm => exact .banKick r m nick hS hm hguard hcalm

theorem deeds_quiet {w' : World} (h : Quiet env c w₀ S w w') : Deeds env c w₀ S w w' := .single (.quiet h)

theorem deeds_emit {out : List (ConnectionPtr × Wire)} (h : ∀ x ∈ out, x.2.Plain S) :
    Deeds env c w₀ S w (w.emit out) := deeds_quiet (.tell out h)

theorem Client.sendPacket_deeds {d : ClientPtr} {p : Packet} (h : (Wire.packet p).Plain S) :
    Deeds env c w₀ S w (Client.sendPacket w d p) := by
  rw [Client.sendPacket_eq]
  exact deeds_emit (plain_mail h)

theorem Member.sendPacket_deeds {p : Packet} (h : (Wire.packet p).Plain S) :
    Deeds env c w₀ S w (Member.sendPacket w m p) := Client.sendPacket_deeds h

theorem Member.reply_deeds (hS : S (w.roomAt (w.memberAt m).room).name) (msg : Bytes) :
    Deeds env c w₀ S w (Member.reply w m msg) := Member.sendPacket_deeds (.inr hS)

theorem Member.setNick_deeds {nick : Bytes} (hS : S (w.roomAt r).name) (hm : m ∈ (w.roomAt r).members)
    (hr : (w.memberAt m).room = r) (hfree : nick = [] ∨ Room.findMemberByNick w r nick = none) :
    Deeds env c w₀ S w (Member.setNick env w m nick) := by
  unfold Member.setNick
  dsimp only
  rw [hr]
  split
  · exact .refl
  · rename_i hne
    split
    · exact Member.sendPacket_deeds (.inr hS)
    · rename_i hban
      rw [Room.sendPacketToAll_status]
      refine deeds_quiet (.rename r m nick hS hm hne hfree ?_)
      by_cases hmod : Member.isModer w m
      · exact .inl hmod
      · exact .inr (by simpa [hmod] using hban)

theorem ban_deeds {f : Room → Room} (nicks ips : IterSet Bytes) (uids : IterSet UInt32)
    (hS : S (w.roomAt r).name) (hguard : Client.Moderates w₀ c r)
    (hf : f (w.roomAt r) = { w.roomAt r with bannedNicks := nicks, bannedIps := ips, bannedUids := uids })
    (hn : ∀ nick ∈ nicks, nick ∈ (w.roomAt r).bannedNicks ∨ Room.findMemberByNick w r nick = none ∧ Calm w₀ w) :
    Deeds env c w₀ S w (w.modifyRoom r f) := by
  rw [modifyRoom_congr (g := fun rm => { rm with
    bannedNicks := nicks, bannedIps := ips, bannedUids := uids }) hf]
  exact deeds_quiet (.ban r nicks ips uids hS hguard hn)

theorem appoint_deeds {f : Room → Room} (moderators : IterSet UInt32) (hS : S (w.roomAt r).name)
    (hguard : Client.Owns w₀ c r) (hcalm : Calm w₀ w)
    (hf : f (w.roomAt r) = { w.roomAt r with moderators := moderators }) :
    Deeds env c w₀ S w (w.modifyRoom r f) := by
  rw [modifyRoom_congr (g := fun rm => { rm with moderators := moderators }) hf]
  exact deeds_quiet (.appoint r moderators hS hguard hcalm)

section
variable {parser : RegexParser} (hr : (w.memberAt m).room = r) (hS : S (w.roomAt r).name)
include hr hS

theorem command_reply_deeds (msg : Bytes) : Deeds env c w₀ S w (Member.reply w m msg) :=
  Member.reply_deeds (by rw [hr]; exact hS) msg

theorem CommandNick.process_deeds (hm : m ∈ (w.roomAt r).members) :
    Deeds env c w₀ S w (CommandNick.process env w m parser) := by
  unfold CommandNick.process
  dsimp only
  rw [hr]
  generalize CommandNick.normalize parser.suffix = nick
  split
  · split
    · exact command_reply_deeds hr hS _
    · rename_i hfree
      apply Member.setNick_deeds hS hm hr
      by_cases hn : nick = []
      · exact .inl hn
      · exact .inr (by simpa [hn] using hfree)
  · exact command_reply_deeds hr hS _

theorem CommandStyledMessage.process_deeds {style : Style} (hm : m ∈ (w.roomAt r).members)
    (hc : (w.memberAt m).client = c) (hn : (w.memberAt m).hasNick) (hcalm : Calm w₀ w) :
    Deeds env c w₀ S w (CommandStyledMessage.process env style w m parser) := by
  unfold CommandStyledMessage.process
  dsimp only
  split
  · exact command_reply_deeds hr hS _
  · rw [hr]
    exact deeds_quiet (.say r m style _ hS hm hc hn hcalm)

theorem Member.whisper_deeds {m2 : Option MemberPtr} {smsg : Bytes} (hm : m ∈ (w.roomAt r).members)
    (hc : (w.memberAt m).client = c) (hn : (w.memberAt m).hasNick) (hcalm : Calm w₀ w)
    (hm2 : ∀ n ∈ m2, n ∈ (w.roomAt r).members ∧ (w.memberAt n).hasNick) :
    Deeds env c w₀ S w (Member.whisper w m m2 smsg) := by
  unfold Member.whisper
  split
  · exact command_reply_deeds hr hS _
  · cases m2 with
    | none => exact command_reply_deeds hr hS _
    | some m2 =>
      obtain ⟨hin, hnick⟩ := hm2 m2 rfl
      simp only [Member.sendPacket_eq, World.emit_emit]
      exact deeds_quiet (.whisper r m m2 smsg hS hm hc hn hin hnick hcalm)

theorem CommandPrivateMessage.process_deeds (hm : m ∈ (w.roomAt r).members)
    (hc : (w.memberAt m).client = c) (hn : (w.memberAt m).hasNick) (hcalm : Calm w₀ w) :
    Deeds env c w₀ S w (CommandPrivateMessage.process w m parser) := by
  apply Member.whisper_deeds hr hS hm hc hn hcalm
  intro n hfind
  rw [hr] at hfind
  have hnick := List.find?_some hfind
  exact ⟨List.mem_of_find?_eq_some hfind, (Bool.and_eq_true_iff.mp hnick).1⟩

theorem CommandPrivateMessageById.process_deeds (hm : m ∈ (w.roomAt r).members)
    (hc : (w.memberAt m).client = c) (hn : (w.memberAt m).hasNick) (hcalm : Calm w₀ w) :
    Deeds env c w₀ S w (CommandPrivateMessageById.process w m parser) := by
  apply Member.whisper_deeds hr hS hm hc hn hcalm
  intro n hfind
  rw [hr] at hfind
  obtain ⟨hfind, hnick⟩ := Option.filter_eq_some_iff.mp hfind
  exact ⟨List.mem_of_find?_eq_some hfind, hnick⟩

theorem Command.withNick_deeds {act : Bytes → World} (h : ∀ nick, nick ≠ [] → Deeds env c w₀ S w (act nick)) :
    Deeds env c w₀ S w (Command.withNick w m parser act) := by
  unfold Command.withNick
  dsimp only
  split
  · exact command_reply_deeds hr hS _
  · rename_i hn
    exact h _ fun he => hn (.inr he)

theorem Command.withUid_deeds {act : UInt32 → World} (h : ∀ uid, Deeds env c w₀ S w (act uid)) :
    Deeds env c w₀ S w (Command.withUid w m parser act) := by
  unfold Command.withUid
  split
  · exact h _
  · exact command_reply_deeds hr hS _

theorem Command.withIp_deeds {refusal : Bytes} {act : Bytes → World} (h : ∀ ip, Deeds env c w₀ S w (act ip)) :
    Deeds env c w₀ S w (Command.withIp w m parser refusal act) := by
  unfold Command.withIp
  split
  · exact h _
  · exact command_reply_deeds hr hS _

theorem Command.update_deeds {changes : Bool} {f : Room → Room} {done same : Bytes}
    (hf : (f (w.roomAt r)).name = (w.roomAt r).name) (h : changes → Deeds env c w₀ S w (w.modifyRoom r f)) :
    Deeds env c w₀ S w (Command.update w m changes f done same) := by
  unfold Command.update
  rw [hr]
  split
  · rename_i hc
    refine (h hc).trans (Member.reply_deeds ?_ _)
    simpa [hr, hf] using hS
  · exact command_reply_deeds hr hS _

omit hr in
theorem CommandGender.process_deeds (hm : m ∈ (w.roomAt r).members) :
    Deeds env c w₀ S w (CommandGender.process env w m parser) := by
  have hset : ∀ girl, Deeds env c w₀ S w (Member.announce env (Member.setGirl w m girl) m .genderChange) := by
    intro girl
    rw [Member.setGirl, modifyMember_congr (g := fun mem =>
      { mem with girl := girl, color := (w.memberAt m).color }) rfl]
    exact deeds_quiet (.restyle r m girl _ .genderChange hS hm (.inl rfl))
  exact hset _

theorem CommandColor.process_deeds (hm : m ∈ (w.roomAt r).members) :
    Deeds env c w₀ S w (CommandColor.process env w m parser) := by
  unfold CommandColor.process
  dsimp only
  split
  · exact command_reply_deeds hr hS _
  · rw [Member.setColor, modifyMember_congr (g := fun mem => { mem with
      girl := (w.memberAt m).girl, color := CommandColor.argument parser }) rfl]
    exact deeds_quiet (.restyle r m _ _ .colorChange hS hm (.inr rfl))

theorem CommandBanNick.process_deeds (hguard : Client.Moderates w₀ c r) (hcalm : Calm w₀ w) :
    Deeds env c w₀ S w (CommandBanNick.process env w m parser) := by
  unfold CommandBanNick.process
  dsimp only
  rw [hr]
  split
  · exact command_reply_deeds hr hS _
  · apply Command.withNick_deeds hr hS
    intro nick _
    split
    · exact command_reply_deeds hr hS _
    · have hfind : Room.findMemberByNick (w.modifyRoom r fun rm =>
          { rm with bannedNicks := rm.bannedNicks.insert nick }) r nick = Room.findMemberByNick w r nick := by
        simp [Room.findMemberByNick]
      rw [hfind]
      cases hm2 : Room.findMemberByNick w r nick with
      | none =>
        refine ReflTransGen.trans ?_ (Member.reply_deeds (by simpa [hr] using hS) _)
        refine ban_deeds _ _ _ hS hguard rfl ?_
        intro n hn
        rcases IterSet.mem_insert.mp hn with rfl | hn
        · exact .inr ⟨hm2, hcalm⟩
        · exact .inl hn
      | some m2 =>
        have hkick : Deed env c w₀ S w _ := .banKick r m2 nick hS hm2 hguard hcalm
        refine (ReflTransGen.single hkick).trans (Member.reply_deeds ?_ _)
        rw [Room.kickMember_eq]
        simpa [hr] using hS

theorem CommandUnbanNick.process_deeds (hguard : Client.Moderates w₀ c r) :
    Deeds env c w₀ S w (CommandUnbanNick.process w m parser) := by
  apply Command.withNick_deeds hr hS
  intro nick _
  apply Command.update_deeds hr hS rfl
  intro _
  exact ban_deeds _ _ _ hS hguard rfl fun n hn => .inl (IterSet.mem_erase.mp hn).2

theorem CommandBanUid.process_deeds (hguard : Client.Moderates w₀ c r) :
    Deeds env c w₀ S w (CommandBanUid.process w m parser) := by
  unfold CommandBanUid.process
  dsimp only
  split
  · exact command_reply_deeds hr hS _
  · apply Command.withUid_deeds hr hS
    intro uid
    apply Command.update_deeds hr hS rfl
    intro _
    exact ban_deeds _ _ _ hS hguard rfl fun n hn => .inl hn

theorem CommandUnbanUid.process_deeds (hguard : Client.Moderates w₀ c r) :
    Deeds env c w₀ S w (CommandUnbanUid.process w m parser) := by
  apply Command.withUid_deeds hr hS
  intro uid
  apply Command.update_deeds hr hS rfl
  intro _
  exact ban_deeds _ _ _ hS hguard rfl fun n hn => .inl hn

theorem CommandBanIp.process_deeds (hguard : Client.Moderates w₀ c r) :
    Deeds env c w₀ S w (CommandBanIp.process w m parser) := by
  unfold CommandBanIp.process
  dsimp only
  split
  · exact command_reply_deeds hr hS _
  · apply Command.withIp_deeds hr hS
    intro ip
    apply Command.update_deeds hr hS rfl
    intro _
    exact ban_deeds _ _ _ hS hguard rfl fun n hn => .inl hn

theorem CommandUnbanIp.process_deeds (hguard : Client.Moderates w₀ c r) :
    Deeds env c w₀ S w (CommandUnbanIp.process w m parser) := by
  apply Command.withIp_deeds hr hS
  intro ip
  apply Command.update_deeds hr hS rfl
  intro _
  exact ban_deeds _ _ _ hS hguard rfl fun n hn => .inl hn

theorem CommandKick.process_deeds (hguard : Client.Moderates w₀ c r) :
    Deeds env c w₀ S w (CommandKick.process env w m parser) := by
  unfold CommandKick.process
  dsimp only
  rw [hr]
  cases hm2 : Room.findMemberByNick w r parser.suffix with
  | none => exact command_reply_deeds hr hS _
  | some m2 => exact .single (.kick r m2 hS (List.mem_of_find?_eq_some hm2) hguard)

theorem CommandAddModer.process_deeds (hguard : Client.Owns w₀ c r) (hcalm : Calm w₀ w) :
    Deeds env c w₀ S w (CommandAddModer.process w m parser) := by
  unfold CommandAddModer.process
  dsimp only
  split
  · exact command_reply_deeds hr hS _
  · apply Command.withUid_deeds hr hS
    intro uid
    split
    · exact command_reply_deeds hr hS _
    · apply Command.update_deeds hr hS rfl
      intro _
      exact appoint_deeds _ hS hguard hcalm rfl

theorem CommandDelModer.process_deeds (hguard : Client.Owns w₀ c r) (hcalm : Calm w₀ w) :
    Deeds env c w₀ S w (CommandDelModer.process w m parser) := by
  apply Command.withUid_deeds hr hS
  intro uid
  apply Command.update_deeds hr hS rfl
  intro _
  exact appoint_deeds _ hS hguard hcalm rfl

def Command.speaks : Command → Bool
  | .styledMessage _ | .privateMessage | .privateMessageById => true
  | _ => false

/-- A command is processed in moves that its rights allow. -/
theorem Command.process_deeds {cmd : Command} (hcalm : Calm w₀ w) (hm : m ∈ (w.roomAt r).members)
    (hc : (w.memberAt m).client = c) (hnick : cmd.speaks → (w.memberAt m).hasNick)
    (hmoder : cmd ∈ cmdModer → Client.Moderates w₀ c r) (howner : cmd ∈ cmdOwner → Client.Owns w₀ c r) :
    Deeds env c w₀ S w (cmd.process env w m parser) := by
  cases cmd with
  | nick => exact CommandNick.process_deeds hr hS hm
  | gender => exact CommandGender.process_deeds hS hm
  | color => exact CommandColor.process_deeds hr hS hm
  | styledMessage style => exact CommandStyledMessage.process_deeds hr hS hm hc (hnick rfl) hcalm
  | privateMessage => exact CommandPrivateMessage.process_deeds hr hS hm hc (hnick rfl) hcalm
  | privateMessageById => exact CommandPrivateMessageById.process_deeds hr hS hm hc (hnick rfl) hcalm
  | banNick => exact CommandBanNick.process_deeds hr hS (hmoder (by decide)) hcalm
  | banUid => exact CommandBanUid.process_deeds hr hS (hmoder (by decide))
  | banIp => exact CommandBanIp.process_deeds hr hS (hmoder (by decide))
  | unbanNick => exact CommandUnbanNick.process_deeds hr hS (hmoder (by decide))
  | unbanUid => exact CommandUnbanUid.process_deeds hr hS (hmoder (by decide))
  | unbanIp => exact CommandUnbanIp.process_deeds hr hS (hmoder (by decide))
  | kick => exact CommandKick.process_deeds hr hS (hmoder (by decide))
  | addModer => exact CommandAddModer.process_deeds hr hS (howner (by decide)) hcalm
  | delModer => exact CommandDelModer.process_deeds hr hS (howner (by decide)) hcalm
  | help | myRoomList | moderList | banList | userList | roomList | ipCounter =>
    exact command_reply_deeds hr hS _

end

theorem CommandProcessor.mem_of_find {allowed : Prop} [Decidable allowed] {cmds : List Command}
    {cmd : Bytes} {command : Command}
    (h : (if allowed then CommandProcessor.find cmds cmd else none) = some command) :
    allowed ∧ command ∈ cmds := by
  split at h
  · rename_i ha
    exact ⟨ha, List.mem_of_find?_eq_some h⟩
  · cases h

theorem PacketMessage.findCommand_rights {cmd : Bytes} {command : Command}
    (h : PacketMessage.findCommand w m cmd = some command) :
    (command ∈ cmdModer → Member.isModer w m) ∧ (command ∈ cmdOwner → Member.isOwner w m) ∧
      (command.speaks → (w.memberAt m).hasNick) := by
  have hfree : ∀ {command : Command}, (command ∈ cmdAdmin ∨ command ∈ cmdAuthUser ∨ command ∈ cmdAll) →
      command ∉ cmdModer ∧ command ∉ cmdOwner ∧ ¬ command.speaks := by
    intro command h
    revert h
    cases command <;> simp [cmdAdmin, cmdAuthUser, cmdAll, cmdModer, cmdOwner, Command.speaks]
  have hnone : (command ∈ cmdAdmin ∨ command ∈ cmdAuthUser ∨ command ∈ cmdAll) →
      (command ∈ cmdModer → Member.isModer w m) ∧ (command ∈ cmdOwner → Member.isOwner w m) ∧
        (command.speaks → (w.memberAt m).hasNick) := fun h =>
    ⟨fun hm => absurd hm (hfree h).1, fun ho => absurd ho (hfree h).2.1, fun hs => absurd hs (hfree h).2.2⟩
  unfold PacketMessage.findCommand at h
  simp only [Option.orElse_eq_orElse, Option.orElse_eq_or, Option.or_eq_some_iff] at h
  rcases h with h | ⟨-, h | ⟨-, h | ⟨-, h | ⟨-, h | ⟨-, h⟩⟩⟩⟩⟩
  all_goals obtain ⟨hright, hin⟩ := CommandProcessor.mem_of_find h
  · exact hnone (.inl hin)
  · -- the owner's rights include the moderator's
    refine ⟨fun _ => by simp [Member.isModer, hright], fun _ => hright, fun hs => absurd hin ?_⟩
    revert hs
    cases command <;> simp [cmdOwner, Command.speaks]
  · refine ⟨fun _ => hright, fun ho => absurd hin ?_, fun hs => absurd hin ?_⟩
    · revert ho
      cases command <;> simp [cmdModer, cmdOwner]
    · revert hs
      cases command <;> simp [cmdModer, Command.speaks]
  · refine ⟨fun hm => absurd hin ?_, fun ho => absurd hin ?_, fun _ => hright⟩
    · revert hm
      cases command <;> simp [cmdModer, cmdUser]
    · revert ho
      cases command <;> simp [cmdOwner, cmdUser]
  · exact hnone (.inr (.inl hin))
  · exact hnone (.inr (.inr hin))

theorem Calm.refl (w : World) : Calm w w := ⟨rfl, rfl, rfl, fun _ => rfl, fun _ => rfl, rfl⟩

theorem Calm.touch {w₁ : World} (h : Calm w₁ w) (f : Client → Client)
    (hf : (f (w.clientAt c)).uid = (w.clientAt c).uid)
    (hk : (f (w.clientAt c)).connection = (w.clientAt c).connection) : Calm w₁ (w.modifyClient c f) := by
  refine ⟨h.memberAt, h.roomAt, h.rooms, fun d => ?_, fun d => ?_, h.sent⟩
  · rw [← h.uid d]
    by_cases hd : d = c
    · subst hd; simpa using hf
    · simp [hd]
  · rw [← h.connection d]
    by_cases hd : d = c
    · subst hd; simpa using hk
    · simp [hd]

theorem Calm.isModer {w₁ : World} (h : Calm w₁ w) (m : MemberPtr) :
    Member.isModer w m = Member.isModer w₁ m :=
  Member.isModer_congr (by rw [h.memberAt]) (by rw [h.memberAt]) (h.uid _) (by rw [h.roomAt])
    (by rw [h.roomAt])

theorem Calm.isOwner {w₁ : World} (h : Calm w₁ w) (m : MemberPtr) :
    Member.isOwner w m = Member.isOwner w₁ m :=
  Member.isOwner_congr (by rw [h.memberAt]) (by rw [h.memberAt]) (h.uid _) (by rw [h.roomAt])

theorem PacketMessage.processCommand_deeds {w' : World} {msg : Bytes} (hcalm : Calm w₀ w)
    (hS : S (w.roomAt r).name) (hm : m ∈ (w.roomAt r).members) (hc : (w.memberAt m).client = c)
    (hr : (w.memberAt m).room = r) (h : PacketMessage.processCommand env w m r msg = some w') :
    Deeds env c w₀ S w w' := by
  unfold PacketMessage.processCommand at h
  split at h
  · cases h
  · dsimp only at h
    split at h
    · cases h
      exact Member.sendPacket_deeds (.inr hS)
    · split at h
      · rename_i command hfind
        cases h
        obtain ⟨hmoder, howner, hnick⟩ := PacketMessage.findCommand_rights hfind
        have hm₀ : m ∈ (w₀.roomAt r).members := hcalm.roomAt ▸ hm
        have hc₀ : (w₀.memberAt m).client = c := hcalm.memberAt ▸ hc
        refine Command.process_deeds hr hS hcalm hm hc hnick ?_ ?_
        · exact fun hcmd => ⟨m, hm₀, hc₀, (hcalm.isModer m).symm.trans (hmoder hcmd)⟩
        · exact fun hcmd => ⟨m, hm₀, hc₀, (hcalm.isOwner m).symm.trans (howner hcmd)⟩
      · cases h
        exact Member.sendPacket_deeds (.inr hS)

theorem touch_deeds {f : Client → Client} (packetTime messageTime messageCounter : Int)
    (h : f (w.clientAt c) = { w.clientAt c with
      lastPacketTime := packetTime, lastMessageTime := messageTime, messageCounter := messageCounter }) :
    Deeds env c w₀ S w (w.modifyClient c f) := by
  rw [modifyClient_congr (g := fun cli => { cli with
    lastPacketTime := packetTime, lastMessageTime := messageTime, messageCounter := messageCounter }) h]
  exact deeds_quiet (.touch _ _ _)

theorem PacketMessage.resetFlood_deeds : Deeds env c w₀ S w (PacketMessage.resetFlood w c) := by
  unfold PacketMessage.resetFlood
  split
  · exact touch_deeds _ _ _ rfl
  · exact .refl

theorem PacketMessage.resetFlood_calm (hcalm : Calm w₀ w) : Calm w₀ (PacketMessage.resetFlood w c) := by
  unfold PacketMessage.resetFlood
  split
  · exact hcalm.touch _ rfl rfl
  · exact hcalm

theorem PacketMessage.process_deeds (h : WF env w) (hcalm : Calm w₀ w) (p : PacketMessage)
    (hS : S p.target) : Deeds env c w₀ S w (PacketMessage.process env w c p) := by
  unfold PacketMessage.process
  split
  · exact .refl
  · have hreset : Deeds env c w₀ S w (PacketMessage.resetFlood w c) := PacketMessage.resetFlood_deeds
    have hcalm₁ := PacketMessage.resetFlood_calm (c := c) hcalm
    refine hreset.trans ?_
    have h₁ := h.steps (Deeds.steps hreset)
    generalize PacketMessage.resetFlood w c = w₁ at hcalm₁ h₁ ⊢
    dsimp only
    split
    · exact Client.sendPacket_deeds (.inr hS)
    · split
      · exact Client.sendPacket_deeds (.inr hS)
      · have hcount : Deeds env c w₀ S w₁ (w₁.modifyClient c fun cli =>
            { cli with messageCounter := cli.messageCounter + 1 }) := touch_deeds _ _ _ rfl
        have hcalm₂ : Calm w₀ (w₁.modifyClient c fun cli =>
            { cli with messageCounter := cli.messageCounter + 1 }) := hcalm₁.touch _ rfl rfl
        refine hcount.trans ?_
        have h₂ := h₁.steps (Deeds.steps hcount)
        generalize w₁.modifyClient c _ = w₂ at hcalm₂ h₂ ⊢
        cases hroom : Client.getRoomByName w₂ c p.target with
        | none => exact Client.sendPacket_deeds (.inl rfl)
        | some r =>
          obtain ⟨hr, hname⟩ := Client.mem_of_getRoomByName hroom
          have hSr : S (w₂.roomAt r).name := by rw [hname]; exact hS
          obtain ⟨m, hfind⟩ := Room.findMemberByClient_isSome h₂.linked hr
          obtain ⟨hm, hc⟩ := Room.mem_of_findMemberByClient hfind
          dsimp only
          rw [hfind]
          dsimp only
          split
          · rename_i w' hcmd
            exact PacketMessage.processCommand_deeds hcalm₂ hSr hm hc (h₂.linked.home r m hm) hcmd
          · split
            · exact Client.sendPacket_deeds (.inr hS)
            · rename_i hnick
              exact deeds_quiet (.say r m .message p.message hSr hm hc (by simpa [Member.hasNick] using hnick)
                hcalm₂)

theorem steps_quiet {w' : World} (h : Quiet env c w₀ S w w') : Steps env c w₀ S w w' := .single (.quiet h)

theorem steps_emit {out : List (ConnectionPtr × Wire)} (h : ∀ x ∈ out, x.2.Plain S) :
    Steps env c w₀ S w (w.emit out) := steps_quiet (.tell out h)

theorem Client.sendPacket_steps {d : ClientPtr} {p : Packet} (h : (Wire.packet p).Plain S) :
    Steps env c w₀ S w (Client.sendPacket w d p) := Deeds.steps (Client.sendPacket_deeds h)

theorem Member.sendPacket_steps {p : Packet} (h : (Wire.packet p).Plain S) :
    Steps env c w₀ S w (Member.sendPacket w m p) := Client.sendPacket_steps h

theorem PacketOnlineList.process_steps (h : WF env w) (p : PacketOnlineList) (hS : S p.target) :
    Steps env c w₀ S w (PacketOnlineList.process w c p) := by
  unfold PacketOnlineList.process
  cases hroom : Client.getRoomByName w c p.target with
  | none => exact Client.sendPacket_steps (.inr hS)
  | some r =>
    obtain ⟨hr, hname⟩ := Client.mem_of_getRoomByName hroom
    dsimp only
    rw [Client.sendPacket_eq]
    exact steps_quiet (.list c r none (by rw [hname]; exact hS) (h.linked.listed_of_joined hr))

def PacketAuth.answer (sv : AuthServices) (p : PacketAuth) (c : ClientPtr) (result : Except AuthExit Unit)
    (w : World) : World :=
  match result with
  | .error (.refused code info) => Client.sendPacket w c (p.refuse code info)
  | .error (.failed .db) =>
    match sv.reconnect with
    | .ok _ => Client.sendPacket w c
        (p.refuse .databaseError (utf8 "Ошибка подключения к БД при авторизации!"))
    | .error _ => Client.sendPacket w c (PacketAuth.reply w p c)
  | .error (.failed .std) => Client.sendPacket w c (PacketAuth.reply w p c)
  | .ok _ => Client.sendPacket w c (PacketAuth.reply w p c)

theorem PacketAuth.processLogin_eq (sv : AuthServices) (p : PacketAuth) :
    PacketAuth.processLogin env sv w c p =
      let outcome := (PacketAuth.authenticate env sv (w.clientAt c).lastClientIP
        ((w.clientAt c).connection.bind env.sinid) p).run {}
      PacketAuth.answer sv p c outcome.1 (outcome.2.user.elim w (PacketAuth.initUser env w c)) := by
  unfold PacketAuth.processLogin PacketAuth.answer
  dsimp only
  generalize (PacketAuth.authenticate env sv _ _ p).run {} = outcome
  obtain ⟨result, calls, user⟩ := outcome
  cases user with
  | none => rfl
  | some user => rfl

theorem PacketAuth.answer_steps (sv : AuthServices) (p : PacketAuth) (result : Except AuthExit Unit) :
    Steps env c w₀ S w (PacketAuth.answer sv p c result w) := by
  unfold PacketAuth.answer
  split
  · exact Client.sendPacket_steps (.inl rfl)
  · split <;> exact Client.sendPacket_steps (.inl rfl)
  · exact Client.sendPacket_steps (.inl rfl)
  · exact Client.sendPacket_steps (.inl rfl)

theorem PacketAuth.processLogin_steps (hcalm : Calm w₀ w) (sv : AuthServices) (p : PacketAuth) :
    Steps env c w₀ S w (PacketAuth.processLogin env sv w c p) := by
  rw [PacketAuth.processLogin_eq]
  generalize (PacketAuth.authenticate env sv _ _ p).run {} = outcome
  obtain ⟨result, run⟩ := outcome
  cases hu : run.user with
  | none => simpa [hu] using PacketAuth.answer_steps sv p result
  | some user =>
    simp only [hu, Option.elim_some]
    exact (steps_quiet (.identify user hcalm)).trans (PacketAuth.answer_steps sv p result)

theorem PacketAuth.process_steps (h : WF env w) (hcalm : Calm w₀ w) {k : ConnectionPtr}
    (hc : c ∈ w.manager.clients) (hk : (w.clientAt c).connection = some k)
    (hS : ∀ name, S name) (sv : AuthServices) (p : PacketAuth) :
    Steps env c w₀ S w (PacketAuth.process env sv w c p) := by
  unfold PacketAuth.process
  cases sv.construct with
  | error _ => exact Client.sendPacket_steps (.inl rfl)
  | ok _ =>
    dsimp only
    cases ht : PacketAuth.target w c p with
    | none => exact PacketAuth.processLogin_steps hcalm sv p
    | some t =>
      have htc : t ∈ w.manager.clients ∧ c ≠ t := by
        unfold PacketAuth.target at ht
        split at ht
        · cases ht
        · obtain ⟨hlook, hne⟩ := Option.filter_eq_some_iff.mp ht
          exact ⟨((h.indexed.tokenIff p.token t).mp hlook).1, Ne.symm (by simpa using hne)⟩
      have hsend : Client.sendPacket w c (PacketAuth.reply w p t) =
          w.emit [(k, .packet (PacketAuth.reply w p t))] := by
        rw [Client.sendPacket_eq, World.mail, hk]
        rfl
      dsimp only
      rw [hsend]
      exact .single (.revive t k _ hS hc htc.1 htc.2 hk (.inl rfl))

/-- The rooms a packet may be about: all rooms of its sender for a change of presence and for
authentication, which can resume another session, and otherwise its target. -/
def Packet.Scope (S : Bytes → Prop) : Packet → Prop
  | .message p => S p.target
  | .onlineList p => S p.target
  | .auth _ => ∀ name, S name
  | .status p => if p.status = .away ∨ p.status = .back then ∀ name, S name else S p.target
  | .join p => S p.target
  | .leave p | .createRoom p | .removeRoom p => S p.target
  | .error _ | .system _ | .ping _ => True

theorem Packet.scope_anywhere (p : Packet) : p.Scope Anywhere := by
  cases p with
  | status p =>
    by_cases hs : p.status = .away ∨ p.status = .back
    · exact (if_pos hs).mpr fun _ => trivial
    · exact (if_neg hs).mpr trivial
  | auth p => exact fun _ => trivial
  | _ => exact trivial

theorem PacketStatus.process_steps (h : WF env w) (p : PacketStatus) (hS : (Packet.status p).Scope S) :
    Steps env c w₀ S w (PacketStatus.process env w c p) := by
  unfold PacketStatus.process
  split
  · rename_i hs
    simp only [Packet.Scope, hs, if_true] at hS
    refine foldl_steps (P := WF env) (fun _ _ hw hm => hw.move hm) _ _ ?_ h
    intro w' h' r _
    unfold PacketStatus.presenceRoom
    split
    · exact .refl
    · rename_i m hfind
      split
      · rename_i hn
        rw [Room.sendPacketToAll_status]
        exact steps_quiet (.presence r m p.status (hS _) (Room.mem_of_findMemberByClient hfind).1 hn hs)
      · exact .refl
  · rename_i hpresence
    simp only [Packet.Scope, hpresence, if_false] at hS
    split
    · rename_i hs
      split
      · exact .refl
      · split
        · exact .refl
        · rename_i r hroom _ m hfind
          split
          · rename_i hn
            rw [Room.sendPacketToAll_status]
            have hname := (Client.mem_of_getRoomByName hroom).2
            exact steps_quiet (.typing r m p.status (by rw [hname]; exact hS)
              (Room.mem_of_findMemberByClient hfind).1 hn hs)
          · exact .refl
    · exact .refl

theorem PacketLeave.process_steps (p : PacketTarget) (hS : S p.target) :
    Steps env c w₀ S w (PacketLeave.process env w c p) := by
  unfold PacketLeave.process
  cases hroom : Client.getRoomByName w c p.target with
  | none => exact Client.sendPacket_steps (.inr hS)
  | some r =>
    obtain ⟨hr, hname⟩ := Client.mem_of_getRoomByName hroom
    exact (ReflTransGen.single (.leave r (by rw [hname]; exact hS) hr)).trans
      (Client.sendPacket_steps (.inr hS))

theorem PacketCreateRoom.process_steps (hcalm : Calm w₀ w) (p : PacketTarget) (hS : S p.target) :
    Steps env c w₀ S w (PacketCreateRoom.process w c p) := by
  unfold PacketCreateRoom.process
  split
  · exact Client.sendPacket_steps (.inr hS)
  · split
    · exact Client.sendPacket_steps (.inr hS)
    · rename_i hfull
      cases hroom : Server.getRoomByName w p.target with
      | some r =>
        simp only [Server.createRoom, hroom]
        exact Client.sendPacket_steps (.inr hS)
      | none =>
        have hcreate : Move env c w₀ S w _ := .create p.target hS (by simpa using hfull) hroom hcalm
        simp only [Server.createRoom_eq hroom]
        exact (ReflTransGen.single hcreate).trans (Client.sendPacket_steps (.inr hS))

theorem PacketRemoveRoom.process_steps (hcalm : Calm w₀ w) (p : PacketTarget) (hS : S p.target) :
    Steps env c w₀ S w (PacketRemoveRoom.process env w c p) := by
  unfold PacketRemoveRoom.process
  split
  · exact Client.sendPacket_steps (.inr hS)
  · rename_i hguest
    cases hroom : Server.getRoomByName w p.target with
    | none => exact Client.sendPacket_steps (.inr hS)
    | some r =>
      dsimp only
      split
      · rename_i hmay
        have hguard : Client.MayRaze w₀ c r := by
          simp only [Client.isAdmin, hcalm.uid, hcalm.roomAt, Bool.or_eq_true, beq_iff_eq] at hmay
          simp only [Client.isGuest, hcalm.uid] at hguest
          simp only [Client.MayRaze, Client.isAdmin, Client.isGuest, Bool.or_eq_true, beq_iff_eq]
          exact hmay.imp_right fun hu => ⟨hguest, hu⟩
        exact (ReflTransGen.single (.raze r p.target hS hroom hguard)).trans
          (Client.sendPacket_steps (.inr hS))
      · exact Client.sendPacket_steps (.inr hS)

theorem PacketJoin.restore_world (w : World) (c : ClientPtr) (r : RoomPtr) (m : MemberPtr) :
    ∃ girl color, (PacketJoin.restore w c r m).2 =
      w.modifyMember m fun mem => { mem with girl := girl, color := color } := by
  unfold PacketJoin.restore
  split
  all_goals simp only [Member.setColor, Member.setGirl, World.modifyMember, Function.update_idem,
    Function.update_self]
  all_goals exact ⟨_, _, rfl⟩

theorem PacketJoin.checkNick_spec (S : Bytes → Prop) (w : World) (r : RoomPtr) (m : MemberPtr) (nick : Bytes) :
    (∃ out, (∀ x ∈ out, x.2.Plain S) ∧ (PacketJoin.checkNick w r m nick).2 = w.emit out) ∧
      ((PacketJoin.checkNick w r m nick).1 = [] ∨
        Room.findMemberByNick w r (PacketJoin.checkNick w r m nick).1 = none) := by
  have htold : ∀ nick why : Bytes,
      ∀ x ∈ w.mail (w.memberAt m).client (.packet (PacketJoin.rejected nick why)), x.2.Plain S :=
    fun nick why => plain_mail (x := .packet (PacketJoin.rejected nick why)) (.inl rfl)
  unfold PacketJoin.checkNick
  simp only [Member.sendPacket_eq]
  split <;> dsimp only <;> split
  · refine ⟨⟨_, fun x hx => ?_, World.emit_emit _ _ _⟩, .inl rfl⟩
    rcases List.mem_append.mp hx with hx | hx
    · exact htold _ _ x hx
    · exact htold _ _ x hx
  · exact ⟨⟨_, htold _ _, rfl⟩, .inl rfl⟩
  · exact ⟨⟨_, htold _ _, rfl⟩, .inl rfl⟩
  · rename_i hfree
    exact ⟨⟨[], by simp, by simp⟩, .inr (by simpa using hfree)⟩

theorem PacketJoin.autoNick_spec (w : World) (c : ClientPtr) (r : RoomPtr) (m : MemberPtr)
    (p : PacketJoin) : (PacketJoin.autoNick w c r m p).2.roomAt = w.roomAt ∧
      ((PacketJoin.autoNick w c r m p).2.memberAt m).room = (w.memberAt m).room ∧
      ((PacketJoin.autoNick w c r m p).1 = [] ∨ Room.findMemberByNick
        (PacketJoin.autoNick w c r m p).2 r (PacketJoin.autoNick w c r m p).1 = none) := by
  unfold PacketJoin.autoNick
  split
  · obtain ⟨girl, color, hw⟩ := PacketJoin.restore_world w c r m
    obtain ⟨⟨out, -, he⟩, hfree⟩ := PacketJoin.checkNick_spec (fun _ => True)
      (PacketJoin.restore w c r m).2 r m (PacketJoin.restore w c r m).1
    dsimp only
    rw [he]
    refine ⟨?_, ?_, hfree⟩
    · rw [hw]
      rfl
    · rw [hw]
      simp
  · exact ⟨rfl, rfl, .inl rfl⟩

theorem PacketJoin.autoNick_steps {p : PacketJoin} (hS : S (w.roomAt r).name)
    (hm : m ∈ (w.roomAt r).members) (hn : (w.memberAt m).nick = []) :
    Steps env c w₀ S w (PacketJoin.autoNick w c r m p).2 := by
  unfold PacketJoin.autoNick
  split
  · obtain ⟨girl, color, hw⟩ := PacketJoin.restore_world w c r m
    obtain ⟨⟨out, hout, he⟩, -⟩ := PacketJoin.checkNick_spec S (PacketJoin.restore w c r m).2 r m
      (PacketJoin.restore w c r m).1
    dsimp only
    rw [he]
    refine ReflTransGen.trans ?_ (steps_emit hout)
    rw [hw]
    exact steps_quiet (.dress r m girl color hS hm hn)
  · exact .refl

theorem PacketJoin.settle_steps {nick : Bytes} (hS : S (w.roomAt r).name) (hm : m ∈ (w.roomAt r).members)
    (hr : (w.memberAt m).room = r) (hfree : nick = [] ∨ Room.findMemberByNick w r nick = none) :
    Steps env c w₀ S w (PacketJoin.settle env w m nick) := by
  have hhint : ∀ message, Steps env c w₀ S w
      (Member.sendPacket w m (.system { target := (w.roomAt r).name, message := message })) :=
    fun message => Member.sendPacket_steps (.inr hS)
  have hnick : ∀ p : PacketSystem, Steps env c w₀ S (Member.sendPacket w m (.system p))
      (Member.setNick env (Member.sendPacket w m (.system p)) m nick) := by
    intro p
    rw [Member.sendPacket_eq]
    exact Deeds.steps (Member.setNick_deeds hS hm hr hfree)
  unfold PacketJoin.settle
  dsimp only
  rw [hr]
  split
  · exact (hhint _).trans (Member.sendPacket_steps (.inr hS))
  · exact (hhint _).trans (hnick _)

theorem PacketJoin.welcome_eq (w : World) (c : ClientPtr) (r : RoomPtr) (m : MemberPtr) (p : PacketJoin) :
    PacketJoin.welcome env w c r m p =
      let w' := w.emit (w.welcomeMail c r m p.sequenceId p.loadHistory)
      PacketJoin.settle env (PacketJoin.autoNick w' c r m p).2 m (PacketJoin.autoNick w' c r m p).1 := by
  unfold PacketJoin.welcome PacketJoin.greet World.welcomeMail
  simp only [Client.sendPacket_eq, World.emit_emit, foldl_sendRawData]
  cases p.loadHistory with
  | false => simp [PacketOnlineList.ofRoom, PacketStatus.ofMember, Member.isOwner, Member.isModer, Member.isAdmin]
  | true => simp [PacketOnlineList.ofRoom, PacketStatus.ofMember, Member.isOwner, Member.isModer, Member.isAdmin]

theorem PacketJoin.welcome_steps {w' : World} {p : PacketJoin} (hS : S (w'.roomAt r).name)
    (hm : m ∈ (w'.roomAt r).members) (hr : (w'.memberAt m).room = r) (hn : (w'.memberAt m).nick = [])
    (hstart : Steps env c w₀ S w (w'.emit (w'.welcomeMail c r m p.sequenceId p.loadHistory))) :
    Steps env c w₀ S w (PacketJoin.welcome env w' c r m p) := by
  rw [PacketJoin.welcome_eq]
  dsimp only
  refine hstart.trans ?_
  have hauto : Steps env c w₀ S _ (PacketJoin.autoNick
      (w'.emit (w'.welcomeMail c r m p.sequenceId p.loadHistory)) c r m p).2 :=
    PacketJoin.autoNick_steps hS hm hn
  obtain ⟨hrooms, hself, hfree⟩ := PacketJoin.autoNick_spec
    (w'.emit (w'.welcomeMail c r m p.sequenceId p.loadHistory)) c r m p
  refine hauto.trans (PacketJoin.settle_steps ?_ ?_ (hself.trans hr) hfree)
  · rw [hrooms]
    exact hS
  · rw [hrooms]
    exact hm

theorem PacketJoin.process_steps (hc : c ∈ w.manager.clients) (p : PacketJoin) (hS : S p.target) :
    Steps env c w₀ S w (PacketJoin.process env w c p) := by
  unfold PacketJoin.process
  cases hmine : Client.getRoomByName w c p.target with
  | some r => exact Client.sendPacket_steps (.inr hS)
  | none =>
    cases hroom : Server.getRoomByName w p.target with
    | none => exact Client.sendPacket_steps (.inr hS)
    | some r =>
      obtain ⟨hr, hname⟩ := Server.mem_of_getRoomByName hroom
      have hSr : S (w.roomAt r).name := by rw [hname]; exact hS
      have hcr : r ∉ (w.clientAt c).rooms := by
        intro hin
        have := List.find?_eq_none.mp hmine r hin
        simp [hname] at this
      dsimp only
      rcases Client.joinRoom_cases w c r with ⟨id, hid, hjoin | ⟨e, he, hjoin⟩⟩ | hjoin
      · rw [hjoin]
        refine PacketJoin.welcome_steps ?_ ?_ ?_ ?_
          (.single (.enter r id p.sequenceId p.loadHistory hSr hc hr hcr hid))
        · simpa [World.enter] using hSr
        · simp [World.enter]
        · simp [World.enter]
        · simp [World.enter]
      · rw [hjoin]
        have hissue : Steps env c w₀ S w (w.issue c r id) := .single (.issue r id hSr)
        have hname' : ((w.issue c r id).roomAt r).name = (w.roomAt r).name := by simp [World.issue]
        cases e with
        | hung => exact absurd rfl he
        | bannedByIP =>
          exact hissue.trans (Client.sendPacket_steps (.inr (by simpa [PacketJoin.refuse, Packet.target, hname'])))
        | bannedByID =>
          exact hissue.trans (Client.sendPacket_steps (.inr (by simpa [PacketJoin.refuse, Packet.target, hname'])))
      · rw [hjoin]
        exact .single .hang

/-- What a packet does is a sequence of moves of its sender, about the rooms in its scope. -/
theorem Packet.process_steps (h : WF env w) (hcalm : Calm w₀ w) {k : ConnectionPtr}
    (hc : c ∈ w.manager.clients) (hk : (w.clientAt c).connection = some k) (sv : AuthServices)
    (p : Packet) (hS : p.Scope S) : Steps env c w₀ S w (p.process env sv w c) := by
  cases p with
  | error | system | ping => exact .refl
  | message p => exact Deeds.steps (PacketMessage.process_deeds h hcalm p hS)
  | onlineList p => exact PacketOnlineList.process_steps h p hS
  | auth p => exact PacketAuth.process_steps h hcalm hc hk hS sv p
  | status p => exact PacketStatus.process_steps h p hS
  | join p => exact PacketJoin.process_steps hc p hS
  | leave p => exact PacketLeave.process_steps p hS
  | createRoom p => exact PacketCreateRoom.process_steps hcalm p hS
  | removeRoom p => exact PacketRemoveRoom.process_steps hcalm p hS

end
end WsChat
