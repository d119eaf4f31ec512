import WsChat.Rights
import Mathlib.Data.List.Induction

/-! Who wears a nick that is banned in the room: moderators, and who moderated the room when it put the nick on. -/
namespace WsChat
open Lib Relation ClientsManager

structure World.Wears (w : World) (r : RoomPtr) (m : MemberPtr) (nick : Bytes) : Prop where
  seated : m ∈ (w.roomAt r).members
  nick : (w.memberAt m).nick = nick

/-- The member wears a nick that is banned in the room. -/
structure World.Flouts (w : World) (r : RoomPtr) (m : MemberPtr) (nick : Bytes) : Prop where
  worn : w.Wears r m nick
  banned : nick ∈ (w.roomAt r).bannedNicks

/-- Whoever wears a nick that is banned in its room is a moderator there, or has the excuse `q`. -/
def Excused (q : RoomPtr → MemberPtr → Bytes → Prop) (w : World) : Prop :=
  ∀ r m nick, w.Flouts r m nick → nick ≠ [] → Member.isModer w m ∨ q r m nick

structure Bides (w w' : World) : Prop where
  members : ∀ r, ∀ m ∈ (w'.roomAt r).members, m ∈ (w.roomAt r).members
  nick : ∀ r, ∀ m ∈ (w'.roomAt r).members, (w'.memberAt m).nick = (w.memberAt m).nick
  bans : ∀ r, ∀ m ∈ (w'.roomAt r).members, (w.memberAt m).nick ≠ [] →
    (w.memberAt m).nick ∈ (w'.roomAt r).bannedNicks → (w.memberAt m).nick ∈ (w.roomAt r).bannedNicks
  rights : ∀ r, ∀ m ∈ (w'.roomAt r).members, Member.isModer w' m = Member.isModer w m

section
variable {env : Env} {c : ClientPtr} {q : RoomPtr → MemberPtr → Bytes → Prop} {w₀ w w' w'' : World}
  {r : RoomPtr} {m : MemberPtr} {nick : Bytes}

theorem Bides.refl (w : World) : Bides w w := ⟨fun _ _ h => h, fun _ _ _ => rfl, fun _ _ _ _ h => h, fun _ _ _ => rfl⟩

theorem Bides.trans (h : Bides w w') (h' : Bides w' w'') : Bides w w'' where
  members := fun r m hm => h.members r m (h'.members r m hm)
  nick := fun r m hm => (h'.nick r m hm).trans (h.nick r m (h'.members r m hm))
  bans := by
    intro r m hm hne hb
    have hm' := h'.members r m hm
    have hnick := h.nick r m hm'
    refine h.bans r m hm' hne ?_
    rw [← hnick] at hne hb ⊢
    exact h'.bans r m hm hne hb
  rights := fun r m hm => (h'.rights r m hm).trans (h.rights r m (h'.members r m hm))

theorem Bides.flouts (h : Bides w w') (hne : nick ≠ []) (hf : w'.Flouts r m nick) : w.Flouts r m nick := by
  have hnick := (h.nick r m hf.worn.seated).symm.trans hf.worn.nick
  refine ⟨⟨h.members r m hf.worn.seated, hnick⟩, ?_⟩
  subst hnick
  exact h.bans r m hf.worn.seated hne hf.banned

theorem Excused.shift (h : Excused q w) (hb : Bides w w') : Excused q w' := by
  intro r m nick hf hne
  rw [hb.rights r m hf.worn.seated]
  exact h r m nick (hb.flouts hne hf) hne

theorem Bides.thin (ht : Thins w w') : Bides w w' := by
  have hsame : ∀ m, (w'.memberAt m).nick = (w.memberAt m).nick ∧ (w'.memberAt m).client = (w.memberAt m).client ∧
      (w'.memberAt m).room = (w.memberAt m).room := by
    intro m
    obtain ⟨stat, seen, he, -⟩ := ht.member m
    rw [he]
    exact ⟨rfl, rfl, rfl⟩
  refine ⟨ht.members, fun _ m _ => (hsame m).1, fun r m _ _ hb => ?_, fun r m _ => ?_⟩
  · obtain ⟨-, -, -, hban, -⟩ := ht.room r
    exact hban ▸ hb
  · obtain ⟨-, howner, hmods, -⟩ := ht.room (w.memberAt m).room
    exact Member.isModer_congr (hsame m).2.1 (hsame m).2.2 (ht.uid _) howner hmods

theorem Bides.congr (hm : w'.memberAt = w.memberAt)
    (hr : ∀ r, (w'.roomAt r).members = (w.roomAt r).members ∧
      (w'.roomAt r).bannedNicks = (w.roomAt r).bannedNicks ∧
      (w'.roomAt r).ownerId = (w.roomAt r).ownerId ∧ (w'.roomAt r).moderators = (w.roomAt r).moderators)
    (hu : ∀ r, ∀ m ∈ (w.roomAt r).members,
      (w'.clientAt (w.memberAt m).client).uid = (w.clientAt (w.memberAt m).client).uid) : Bides w w' := by
  have hmembers : ∀ r, ∀ m ∈ (w'.roomAt r).members, m ∈ (w.roomAt r).members := fun r m hmr => (hr r).1 ▸ hmr
  refine ⟨hmembers, fun _ m _ => by rw [hm], fun r m _ _ hb => (hr r).2.1 ▸ hb, fun r m hmr => ?_⟩
  obtain ⟨-, -, howner, hmods⟩ := hr (w.memberAt m).room
  exact Member.isModer_congr (by rw [hm]) (by rw [hm]) (hu r m (hmembers r m hmr)) howner hmods

theorem Bides.restyle (w : World) (n : MemberPtr) (girl : Bool) (color : Bytes) :
    Bides w (w.modifyMember n fun mem => { mem with girl := girl, color := color }) := by
  have hsame : ∀ m, ((w.modifyMember n fun mem => { mem with girl := girl, color := color }).memberAt m).nick =
      (w.memberAt m).nick ∧
      ((w.modifyMember n fun mem => { mem with girl := girl, color := color }).memberAt m).client =
        (w.memberAt m).client ∧
      ((w.modifyMember n fun mem => { mem with girl := girl, color := color }).memberAt m).room =
        (w.memberAt m).room := by
    intro m
    by_cases hm : m = n
    · subst hm; simp
    · simp [hm]
  refine ⟨fun _ _ hm => hm, fun _ m _ => (hsame m).1, fun _ _ _ _ hb => hb, fun _ m _ => ?_⟩
  exact Member.isModer_congr (hsame m).2.1 (hsame m).2.2 rfl rfl rfl

theorem Excused.rename (h : Excused q w) (hl : w.membership.Linked)
    (hm : m ∈ (w.roomAt r).members) (hban : Member.isModer w m ∨ nick ∉ (w.roomAt r).bannedNicks) :
    Excused q (w.modifyMember m fun mem => { mem with nick := nick }) := by
  have hmoder : ∀ n, Member.isModer (w.modifyMember m fun mem => { mem with nick := nick }) n =
      Member.isModer w n := by
    intro n
    by_cases hn : n = m
    · subst hn
      exact Member.isModer_congr (by simp) (by simp) rfl rfl rfl
    · exact Member.isModer_congr (by simp [hn]) (by simp [hn]) rfl rfl rfl
  intro s n x hf hne
  have hin : n ∈ (w.roomAt s).members := hf.worn.seated
  rw [hmoder]
  by_cases hnm : n = m
  · subst hnm
    have hsr : s = r := (hl.home s n hin).symm.trans (hl.home r n hm)
    subst hsr
    have hx : nick = x := by simpa using hf.worn.nick
    subst hx
    exact .inl (hban.resolve_right fun hfree => hfree hf.banned)
  · have hnick : (w.memberAt n).nick = x := by simpa [hnm] using hf.worn.nick
    exact h s n x ⟨⟨hin, hnick⟩, hf.banned⟩ hne

theorem Excused.quiet (h : Excused q w) (hl : w.membership.Linked) (hq : ∀ r m nick, w₀.Flouts r m nick → q r m nick)
    {S : Bytes → Prop} (hmove : Quiet env c w₀ S w w') : Excused q w' := by
  -- while nothing has happened everybody wears what they wore when the packet arrived
  have hstart : Calm w₀ w → w'.memberAt = w.memberAt → (∀ r, (w'.roomAt r).members = (w.roomAt r).members ∧
      (w'.roomAt r).bannedNicks = (w.roomAt r).bannedNicks) → Excused q w' := by
    intro hcalm hmember hroom r m nick hf _
    have hin := hf.worn.seated
    have hnick := hf.worn.nick
    have hbanned := hf.banned
    rw [(hroom r).1, hcalm.roomAt] at hin
    rw [(hroom r).2, hcalm.roomAt] at hbanned
    rw [hmember, hcalm.memberAt] at hnick
    exact .inr (hq r m nick ⟨⟨hin, hnick⟩, hbanned⟩)
  cases hmove with
  | tell out hplain => exact h.shift (.thin (.emit w fun x hx => (hplain x hx).not_speech))
  | list => exact h.shift (.thin (.emit w (still_mail id)))
  | touch => exact h.shift (.thin (.modifyClient w c _ rfl))
  | identify user hcalm => exact hstart hcalm rfl fun _ => ⟨rfl, rfl⟩
  | say s =>
    rw [Room.say_eq]
    refine h.shift (.congr rfl (fun r => ?_) fun _ _ _ => rfl)
    by_cases hs : r = s <;> simp [hs]
  | whisper => exact h.shift (.congr rfl (fun _ => ⟨rfl, rfl, rfl, rfl⟩) fun _ _ _ => rfl)
  | presence r m stat _ hm hn hs =>
    refine h.shift (.thin ((Thins.setStatus w m _ ?_).trans (.emit _ (still_roomMail id))))
    rcases hs with rfl | rfl
    · exact .inr (.inl rfl)
    · exact .inl rfl
  | typing => exact h.shift (.thin (.emit w (still_roomMail id)))
  | restyle r m girl color stat =>
    rw [Member.announce_eq]
    exact h.shift ((Bides.restyle w m girl color).trans (.thin (.emit _ (still_announcement _ m stat))))
  | dress _ m girl color => exact h.shift (.restyle w m girl color)
  | rename r m nick _ hm _ _ hban => exact (h.rename hl hm hban).shift (.thin (.emit _ (still_roomMail id)))
  | ban s nicks ips uids _ _ hn =>
    have hmoder : ∀ m, Member.isModer (w.modifyRoom s fun rm => { rm with
        bannedNicks := nicks, bannedIps := ips, bannedUids := uids }) m = Member.isModer w m := fun m => by
      refine Member.isModer_congr rfl rfl rfl ?_ ?_ <;> by_cases hs : (w.memberAt m).room = s <;> simp [hs]
    refine h.shift ⟨fun r m hm => ?_, fun _ _ _ => rfl, fun r m hm hne hb => ?_, fun _ m _ => hmoder m⟩
    · by_cases hs : r = s
      · simpa [hs] using hm
      · simpa [hs] using hm
    · by_cases hs : r = s
      · subst hs
        simp only [World.modifyRoom_roomAt, Function.update_self] at hm hb
        exact (hn _ hb).resolve_right fun hfree => Room.nick_free hfree.1 hne m hm rfl
      · simpa [hs] using hb
  | appoint s moderators _ _ hcalm =>
    refine hstart hcalm rfl fun r => ?_
    by_cases hs : r = s <;> simp [hs]

theorem Room.findMemberByNick_wears (h : Room.findMemberByNick w r nick = some m) : w.Wears r m nick := by
  have htest := List.find?_some h
  simp only [Bool.and_eq_true, beq_iff_eq] at htest
  exact ⟨List.mem_of_find?_eq_some h, htest.2⟩

theorem Excused.banKick (h : Excused q w) (hs : Seated w)
    (hm : Room.findMemberByNick w r nick = some m) : Excused q (Room.kickMember env
      (w.modifyRoom r fun rm => { rm with bannedNicks := rm.bannedNicks.insert nick }) r m) := by
  set w₁ := w.modifyRoom r fun rm => { rm with bannedNicks := rm.bannedNicks.insert nick } with hw₁
  have hworn := Room.findMemberByNick_wears hm
  have hmoder : ∀ n, Member.isModer w₁ n = Member.isModer w n := fun n => by
    refine Member.isModer_congr rfl rfl rfl ?_ ?_ <;> by_cases hn : (w.memberAt n).room = r <;> simp [hw₁, hn]
  -- for a moment the wearer is excused
  have hban : Excused (fun s n x => q s n x ∨ s = r ∧ n = m) w₁ := by
    intro s n x hf hne
    rw [hmoder]
    have hnick : (w.memberAt n).nick = x := hf.worn.nick
    have hin := hf.worn.seated
    have hb := hf.banned
    by_cases hsr : s = r
    · subst hsr
      simp only [hw₁, World.modifyRoom_roomAt, Function.update_self, IterSet.mem_insert] at hin hb
      cases hb with
      | inl he =>
        have hsame : (w.memberAt n).nick = (w.memberAt m).nick := hnick.trans (he.trans hworn.nick.symm)
        exact .inr (.inr ⟨rfl, hs.nicks s n hin m hworn.seated hsame (hnick ▸ hne)⟩)
      | inr hold => exact (h s n x ⟨⟨hin, hnick⟩, hold⟩ hne).imp_right .inl
    · simp only [hw₁, World.modifyRoom_roomAt, Function.update_of_ne hsr] at hin hb
      exact (h s n x ⟨⟨hin, hnick⟩, hb⟩ hne).imp_right .inl
  have hgone : m ∉ ((Room.kickMember env w₁ r m).roomAt r).members := by
    rw [Room.kickMember_eq]
    simp
  intro s n x hf hne
  rcases hban.shift (.thin (.kickMember w₁ r m)) s n x hf hne with hmod | hq | ⟨rfl, rfl⟩
  · exact .inl hmod
  · exact .inr hq
  · exact absurd hf.worn.seated hgone

theorem Bides.issue (hl : w.membership.Linked) (c : ClientPtr) (s : RoomPtr) (id : UInt32) :
    Bides w (w.issue c s id) := by
  have hroom : ∀ r, ((w.issue c s id).roomAt r).members = (w.roomAt r).members ∧
      ((w.issue c s id).roomAt r).bannedNicks = (w.roomAt r).bannedNicks ∧
      ((w.issue c s id).roomAt r).ownerId = (w.roomAt r).ownerId ∧
      ((w.issue c s id).roomAt r).moderators = (w.roomAt r).moderators := by
    intro r
    by_cases hs : r = s <;> simp [World.issue, hs]
  have hmembers : ∀ r, ∀ m ∈ ((w.issue c s id).roomAt r).members, m ∈ (w.roomAt r).members := by
    intro r m hm
    rwa [(hroom r).1] at hm
  have hmem : ∀ r, ∀ m ∈ ((w.issue c s id).roomAt r).members, (w.issue c s id).memberAt m = w.memberAt m :=
    fun r m hm => Function.update_of_ne (hl.ne_of_mem w.not_issued m (hmembers r m hm)) _ _
  refine ⟨hmembers, fun r m hm => by rw [hmem r m hm], fun r _ _ _ hb => (hroom r).2.1 ▸ hb, fun r m hm => ?_⟩
  have hsame := hmem r m hm
  exact Member.isModer_congr (by rw [hsame]) (by rw [hsame]) rfl (hroom _).2.2.1 (hroom _).2.2.2

theorem Excused.enter (h : Excused q w) (hl : w.membership.Linked) (c : ClientPtr) (s : RoomPtr) (id : UInt32) :
    Excused q (w.enter c s id) := by
  have hroom : ∀ r, ((w.enter c s id).roomAt r).bannedNicks = (w.roomAt r).bannedNicks ∧
      ((w.enter c s id).roomAt r).ownerId = (w.roomAt r).ownerId ∧
      ((w.enter c s id).roomAt r).moderators = (w.roomAt r).moderators := by
    intro r
    by_cases hs : r = s <;> simp [World.enter, hs]
  have huid : ∀ d, ((w.enter c s id).clientAt d).uid = (w.clientAt d).uid := by
    intro d
    by_cases hd : d = c <;> simp [World.enter, hd]
  intro r m x hf hne
  have hnick := hf.worn.nick
  cases World.mem_enter.mp hf.worn.seated with
  | inl hm =>
    have hmem : (w.enter c s id).memberAt m = w.memberAt m := World.memberAt_enter_old hl hm
    have hmoder : Member.isModer (w.enter c s id) m = Member.isModer w m :=
      Member.isModer_congr (by rw [hmem]) (by rw [hmem]) (huid _) (hroom _).2.1 (hroom _).2.2
    rw [hmem] at hnick
    rw [hmoder]
    exact h r m x ⟨⟨hm, hnick⟩, (hroom r).1 ▸ hf.banned⟩ hne
  | inr hnew =>
    rw [hnew.2, w.memberAt_enter_new] at hnick
    exact absurd hnick.symm hne

theorem Excused.move (h : Excused q w) (hw : WF env w) (hs : Seated w)
    (hq : ∀ r m nick, w₀.Flouts r m nick → q r m nick) {S : Bytes → Prop} (hmove : Move env c w₀ S w w') :
    Excused q w' := by
  have hl := hw.linked
  cases hmove with
  | quiet hquiet => exact h.quiet hl hq hquiet
  | hang => exact h.shift (.congr rfl (fun _ => ⟨rfl, rfl, rfl, rfl⟩) fun _ _ _ => rfl)
  | issue s id => exact h.shift (.issue hl c s id)
  | enter s id => exact (h.enter hl c s id).shift (.thin (.emit _ (still_welcomeMail _ c s _ _ _)))
  | leave s => exact h.shift (.thin (.leaveRoom w c s))
  | kick s m => exact h.shift (.thin (.kickMember w s m))
  | banKick s m nick _ hm => exact h.banKick hs hm
  | create name =>
    intro r m x hf hne
    have hin := hf.worn.seated
    have hb := hf.banned
    by_cases hr : r = ⟨w.nextRoom⟩
    · subst hr
      simp [World.found] at hin
    · simp only [World.found, World.modifyRoom_roomAt, Function.update_of_ne hr] at hin hb
      have hhome : (w.memberAt m).room ≠ ⟨w.nextRoom⟩ := by
        rw [show (w.memberAt m).room = r from hl.home r m hin]
        exact hr
      refine (h r m x ⟨⟨hin, hf.worn.nick⟩, hb⟩ hne).imp_left fun hmod => ?_
      rw [← hmod]
      exact Member.isModer_congr rfl rfl rfl (by simp [World.found, hhome]) (by simp [World.found, hhome])
  | raze s name => exact h.shift (.thin (.removeRoom w name))
  | revive t k p _ _ _ _ _ hp =>
    exact h.shift ((Bides.thin (.emit w (by simpa using hp.not_speech))).trans (.thin (.reviveClient _ c t)))

theorem Bides.connect (hl : w.membership.Linked) (hfresh : ∀ d ∈ w.manager.clients, d.addr < w.nextClient)
    (k : ConnectionPtr) (draws : List Token) : Bides w (connect env w k draws) := by
  obtain ⟨hm, hr⟩ := ClientsManager.connect_heap env w k draws
  refine .congr hm (fun r => by rw [hr]; exact ⟨rfl, rfl, rfl, rfl⟩) fun r m hmr => ?_
  have hne : (w.memberAt m).client ≠ ⟨w.nextClient⟩ := by
    intro he
    have hlt : (w.memberAt m).client.addr < w.nextClient := hfresh _ (hl.registered r m hmr)
    rw [he] at hlt
    exact Nat.lt_irrefl _ hlt
  unfold ClientsManager.connect
  split
  · rfl
  · simp [Client.setConnection, hne]

theorem Bides.routine (hw : WF env w) (hr : Routine env w w') : Bides w w' := by
  cases hr with
  | clock | mark => exact Bides.congr rfl (fun _ => ⟨rfl, rfl, rfl, rfl⟩) fun _ _ _ => rfl
  | opening k draws hk =>
    have harrival : Bides w (w.arrival env k) := .congr rfl (fun _ => ⟨rfl, rfl, rfl, rfl⟩) fun _ _ _ => rfl
    refine harrival.trans ?_
    have hi := World.arrival_indexed (k := k) hw
    rcases Server.onOpen_cases env hw k draws with ⟨-, he⟩ | ⟨-, ⟨-, he⟩ | ⟨c, hc, -, hck, -, he⟩⟩
    · rw [he]
      exact .congr rfl (fun _ => ⟨rfl, rfl, rfl, rfl⟩) fun _ _ _ => rfl
    · rw [he]
      exact Bides.connect (w := w.arrival env k) hw.linked hi.fresh k draws
    · rw [he]
      have hev := ClientsManager.remove_orphan_evolves hi hw.linked hc hck
      refine (Bides.thin (.remove _ c)).trans (.connect (hev.membership ▸ hw.linked.withdraw) ?_ k draws)
      have hforgotten := hi.forget hc hck
      rw [← hev.registry] at hforgotten
      exact hforgotten.fresh
  | ping c =>
    rw [Client.sendPacket_eq]
    exact .thin (.emit w (still_mail id))
  | orphan c => exact .thin (.makeOrphan w c)
  | drop c => exact .thin (.remove w c)

theorem Routines.bides (hw : WF env w) (hr : Routines env w w') : Bides w w' :=
  steps_preserve_under (Q := fun w' => Bides w w') (fun _ _ hw hr => hw.routine hr)
    (fun _ _ hw hb hr => hb.trans (.routine hw hr)) hr hw (.refl w)

theorem Bides.chore (hw : WF env w) (hchore : Chore env w w') : Bides w w' := by
  cases hchore with
  | routine hr => exact .routine hw hr
  | save => exact .congr rfl (fun _ => ⟨rfl, rfl, rfl, rfl⟩) fun _ _ _ => rfl
  | restart =>
    have hnobody : ∀ r m, m ∉ (w.restart.roomAt r).members := fun r m hm => by
      rw [World.restart_members hw r] at hm
      exact IterSet.not_mem_empty m hm
    exact ⟨fun r m hm => absurd hm (hnobody r m), fun r m hm => absurd hm (hnobody r m),
      fun r m hm => absurd hm (hnobody r m), fun r m hm => absurd hm (hnobody r m)⟩

structure Spares (w₀ w : World) : Prop where
  onward : w₀.membership.Onward w.membership
  bans : ∀ r m nick, w₀.Wears r m nick → nick ≠ [] → m ∈ (w.roomAt r).members →
    nick ∈ (w.roomAt r).bannedNicks → nick ∈ (w₀.roomAt r).bannedNicks

theorem Move.onward (hw : WF env w) {S : Bytes → Prop} (hmove : Move env c w₀ S w w') :
    w.membership.Onward w'.membership := by
  cases hmove with
  | quiet hquiet =>
    rw [hquiet.frame.membership]
    exact .refl _
  | hang => exact .refl _
  | issue r id =>
    rw [(issue_evolves w c r id).membership]
    exact .issue
  | enter r id =>
    rw [((enter_evolves w c r id).then_frame (Frame.emit _ _)).membership]
    exact .enter w.not_issued
  | leave r _ hr =>
    obtain ⟨m, -, -, he⟩ := Client.leaveRoom_evolves env hw.linked hr
    rw [he.membership]
    exact .expel
  | kick r m =>
    rw [Room.kickMember_evolves.membership]
    exact .expel
  | banKick r m nick =>
    have hban := Frame.modifyRoom w r (fun rm => { rm with bannedNicks := rm.bannedNicks.insert nick }) rfl rfl
    rw [Room.kickMember_evolves.membership, hban.membership]
    exact .expel
  | create name =>
    rw [((found_evolves w name).then_frame (Frame.modifyRoom _ _ _ rfl rfl)).membership]
    exact .found
  | raze r name _ hr =>
    rw [(Server.removeRoom_evolves hw.linked hr).membership]
    exact .raze
  | revive t k p _ hc ht hct hk =>
    have hw' := hw.frame (Frame.emit w [(k, .packet p)])
    have hev := (ClientsManager.reviveClient_evolves hw'.indexed hw'.linked hc ht hct hk).then_frame
      (Server.reviveClient_frame _ c t)
    rw [hev.membership]
    exact .withdraw

/-- A nick that is newly banned is worn by nobody, or its wearer is kicked, and was worn by the same when the packet
arrived. -/
theorem Move.bans (hs : Seated w) {S : Bytes → Prop} (hmove : Move env c w₀ S w w')
    (hban : nick ∈ (w'.roomAt r).bannedNicks) : nick ∈ (w.roomAt r).bannedNicks ∨
      Calm w₀ w ∧ (nick ≠ [] → ∀ m ∈ (w'.roomAt r).members, ¬ w.Wears r m nick) := by
  have hthin : Thins w w' → nick ∈ (w.roomAt r).bannedNicks := by
    intro ht
    obtain ⟨-, -, -, hsame, -⟩ := ht.room r
    exact hsame ▸ hban
  cases hmove with
  | quiet hquiet =>
    cases hquiet with
    | tell | list | touch | identify | whisper | presence | typing | dress | rename => exact .inl hban
    | restyle =>
      rw [Member.announce_eq] at hban
      exact .inl hban
    | say s =>
      rw [Room.say_eq] at hban
      by_cases hrs : r = s
      · exact .inl (by simpa [hrs] using hban)
      · exact .inl (by simpa [hrs] using hban)
    | ban s nicks ips uids _ _ hn =>
      by_cases hrs : r = s
      · subst hrs
        have hin : nick ∈ nicks := by simpa using hban
        refine (hn nick hin).imp_right fun hfree => ⟨hfree.2, fun hne m _ hworn => ?_⟩
        exact Room.nick_free hfree.1 hne m hworn.seated hworn.nick
      · exact .inl (by simpa [hrs] using hban)
    | appoint s =>
      by_cases hrs : r = s
      · exact .inl (by simpa [hrs] using hban)
      · exact .inl (by simpa [hrs] using hban)
  | hang => exact .inl hban
  | issue s id =>
    by_cases hrs : r = s
    · exact .inl (by simpa [World.issue, hrs] using hban)
    · exact .inl (by simpa [World.issue, hrs] using hban)
  | enter s id =>
    by_cases hrs : r = s
    · exact .inl (by simpa [World.enter, hrs] using hban)
    · exact .inl (by simpa [World.enter, hrs] using hban)
  | leave s => exact .inl (hthin (.leaveRoom w c s))
  | kick s m => exact .inl (hthin (.kickMember w s m))
  | banKick s m nick' _ hm _ hcalm =>
    have hworn := Room.findMemberByNick_wears hm
    rw [Room.kickMember_eq] at hban ⊢
    by_cases hrs : r = s
    · subst hrs
      have hcases : nick = nick' ∨ nick ∈ (w.roomAt r).bannedNicks := by simpa using hban
      cases hcases with
      | inr hold => exact .inl hold
      | inl he =>
        subst he
        refine .inr ⟨hcalm, fun hne n hn hworn' => ?_⟩
        have hsame : n = m := hs.nicks r n hworn'.seated m hworn.seated (hworn'.nick.trans hworn.nick.symm)
          (hworn'.nick.symm ▸ hne)
        subst hsame
        simp at hn
    · exact .inl (by simpa [hrs] using hban)
  | create name =>
    by_cases hrs : r = ⟨w.nextRoom⟩
    · subst hrs
      simp [World.found] at hban
    · exact .inl (by simpa [World.found, hrs] using hban)
  | raze s name => exact .inl (hthin (.removeRoom w name))
  | revive t k p _ _ _ _ _ hp =>
    refine .inl (hthin ((Thins.emit w ?_).trans (.reviveClient _ c t)))
    simpa using hp.not_speech

theorem Spares.move (h : Spares w₀ w) (hl₀ : w₀.membership.Linked) (hw : WF env w) (hs : Seated w)
    {S : Bytes → Prop} (hmove : Move env c w₀ S w w') : Spares w₀ w' := by
  have honward := hmove.onward hw
  refine ⟨h.onward.trans honward, fun r m nick hworn hne hm hban => ?_⟩
  have hold : m ∈ (w.roomAt r).members :=
    honward.members r m (h.onward.issued (hl₀.issued r m hworn.seated)) hm
  cases hmove.bans hs hban with
  | inl hban => exact h.bans r m nick hworn hne hold hban
  | inr hnew =>
    have hworn' : w.Wears r m nick := ⟨hold, by rw [hnew.1.memberAt]; exact hworn.nick⟩
    exact absurd hworn' (hnew.2 hne m hm)

/-- Whoever wears a banned nick after a packet moderates the room, or wore it, banned, when the packet arrived; and
the packet bans no nick that its wearer keeps. -/
theorem Steps.flouts (hw : WF env w) (hs : Seated w) {S : Bytes → Prop} (h : Steps env c w S w w') :
    Excused w.Flouts w' ∧ Spares w w' := by
  have hstart : Excused w.Flouts w ∧ Spares w w :=
    ⟨fun _ _ _ hf _ => .inr hf, .refl _, fun _ _ _ _ _ _ hban => hban⟩
  exact steps_preserve_under (P := fun w => WF env w ∧ Seated w) (Q := fun w' => Excused w.Flouts w' ∧ Spares w w')
    (fun _ _ h hm => ⟨h.1.move hm, h.2.move h.1 hm⟩)
    (fun _ _ h hq hm => ⟨hq.1.move h.1 h.2 (fun _ _ _ hf => hf) hm, hq.2.move hw.linked h.1 h.2 hm⟩) h ⟨hw, hs⟩ hstart

/-- Only a packet puts a banned nick on a member, which does not wear it before and moderates the room after. -/
theorem World.step_flouts (hw : WF env w) (hs : Seated w) {e : Event} (hne : nick ≠ [])
    (hf : (w.step env e).Flouts r m nick) (hnot : ¬ w.Flouts r m nick) :
    (∃ k msg sv, e.act = .message k msg sv) ∧ ¬ w.Wears r m nick ∧ Member.isModer (w.step env e) m := by
  have hw₁ : WF env { w with now := e.now } := hw.chore (.clock e.now)
  have hnot₁ : ¬ World.Flouts { w with now := e.now } r m nick := fun h => hnot ⟨⟨h.worn.seated, h.worn.nick⟩, h.banned⟩
  rcases World.step_cases hw e with hr | ⟨hmsg, c, hsteps⟩ | ⟨-, hchore⟩
  · exact absurd ((Routines.bides hw₁ hr).flouts hne hf) hnot₁
  · obtain ⟨hexcused, hspares⟩ := Steps.flouts hw₁ (hs.chore hw (.clock e.now)) hsteps
    refine ⟨hmsg, fun hworn => hnot ⟨hworn, ?_⟩, (hexcused r m nick hf hne).resolve_right hnot₁⟩
    exact hspares.bans r m nick ⟨hworn.seated, hworn.nick⟩ hne hf.worn.seated hf.banned
  · exact absurd ((Bides.chore hw₁ hchore).flouts hne hf) hnot₁

/-- Only a packet takes rights from a member that stays. -/
theorem World.step_demotes (hw : WF env w) {e : Event} (hm : m ∈ ((w.step env e).roomAt r).members)
    (hmoder : Member.isModer w m) (hnot : ¬ Member.isModer (w.step env e) m) :
    ∃ k msg sv, e.act = .message k msg sv := by
  have hw₁ : WF env { w with now := e.now } := hw.chore (.clock e.now)
  have hmoder₁ : Member.isModer { w with now := e.now } m = true := hmoder
  rcases World.step_cases hw e with hr | ⟨hmsg, -⟩ | ⟨-, hchore⟩
  · exact absurd (((Routines.bides hw₁ hr).rights r m hm).trans hmoder₁) hnot
  · exact hmsg
  · exact absurd (((Bides.chore hw₁ hchore).rights r m hm).trans hmoder₁) hnot

/-- A packet of the run puts the nick on the member, which did not wear it and now moderates the room, and from then
on the member wears it and it is banned. -/
structure PutsOn (env : Env) (es₁ : List Event) (e : Event) (es₂ : List Event) (r : RoomPtr) (m : MemberPtr)
    (nick : Bytes) : Prop where
  packet : ∃ k msg sv, e.act = .message k msg sv
  bare : ¬ (run env es₁).Wears r m nick
  moder : Member.isModer (run env (es₁ ++ [e])) m
  worn : ∀ pre post, es₂ = pre ++ post → (run env (es₁ ++ e :: pre)).Flouts r m nick

/-- A packet puts the banned nick on the member while it moderates the room, and while it still wears the nick a later
packet takes the rights of a moderator from it. -/
def DemotedIn (env : Env) (es : List Event) (r : RoomPtr) (m : MemberPtr) (nick : Bytes) : Prop :=
  ∃ es₁ e es₂ e' es₃, es = es₁ ++ e :: (es₂ ++ e' :: es₃) ∧ PutsOn env es₁ e (es₂ ++ e' :: es₃) r m nick ∧
    (∃ k msg sv, e'.act = .message k msg sv) ∧ Member.isModer (run env (es₁ ++ e :: es₂)) m ∧
    ¬ Member.isModer (run env (es₁ ++ e :: (es₂ ++ [e']))) m

theorem run_puts_on (env : Env) (es : List Event) (hne : nick ≠ []) (hf : (run env es).Flouts r m nick) :
    ∃ es₁ e es₂, es = es₁ ++ e :: es₂ ∧ PutsOn env es₁ e es₂ r m nick := by
  induction es using List.reverseRecOn with
  | nil => exact absurd hf.worn.seated (IterSet.not_mem_empty m)
  | append_singleton es e ih =>
    have hlast : run env (es ++ [e]) = (run env es).step env e := by simp [run, List.foldl_append]
    by_cases hbefore : (run env es).Flouts r m nick
    · obtain ⟨es₁, e₁, es₂, rfl, hputs⟩ := ih hbefore
      refine ⟨es₁, e₁, es₂ ++ [e], by simp, hputs.packet, hputs.bare, hputs.moder, fun pre post he => ?_⟩
      cases post using List.reverseRecOn with
      | nil =>
        rw [List.append_nil] at he
        subst he
        simpa using hf
      | append_singleton post e' =>
        rw [← List.append_assoc] at he
        exact hputs.worn pre post (List.append_inj_left' he rfl)
    · have hf' := hf
      rw [hlast] at hf'
      obtain ⟨hmsg, hbare, hmoder⟩ := World.step_flouts (wf_run env es) (seated_run env es) hne hf' hbefore
      refine ⟨es, e, [], rfl, hmsg, hbare, hlast.symm ▸ hmoder, fun pre post he => ?_⟩
      obtain ⟨rfl, rfl⟩ := List.append_eq_nil_iff.mp he.symm
      exact hf

/-- An ordinary member wears a banned nick only if it moderated the room when it put the nick on, has worn it since,
and lost the rights of a moderator to a packet. -/
theorem run_banned_nicks_worn (env : Env) (es : List Event) :
    let w := run env es
    ∀ r, ∀ m ∈ (w.roomAt r).members, ¬ Member.isModer w m →
      (w.memberAt m).nick = [] ∨ (w.memberAt m).nick ∉ (w.roomAt r).bannedNicks ∨
        DemotedIn env es r m (w.memberAt m).nick := by
  intro w r m hm hmoder
  by_cases hne : (w.memberAt m).nick = []
  · exact .inl hne
  by_cases hban : (w.memberAt m).nick ∈ (w.roomAt r).bannedNicks
  · obtain ⟨es₁, e, es₂, he, hputs⟩ := run_puts_on env es hne ⟨⟨hm, rfl⟩, hban⟩
    have hend : ¬ Member.isModer (run env (es₁ ++ e :: es₂)) m := he ▸ hmoder
    obtain ⟨es₃, e', es₄, rfl, hmoder', hlost⟩ :=
      exists_loss (p := fun pre => Member.isModer (run env (es₁ ++ e :: pre)) m = true) hputs.moder hend
    refine .inr (.inr ⟨es₁, e, es₃, e', es₄, he, hputs, ?_, hmoder', hlost⟩)
    have hlast : run env (es₁ ++ e :: (es₃ ++ [e'])) = (run env (es₁ ++ e :: es₃)).step env e' := by
      simp [run, List.foldl_append]
    have hstays := (hputs.worn (es₃ ++ [e']) es₄ (by simp)).worn.seated
    rw [hlast] at hlost hstays
    exact World.step_demotes (wf_run env _) hstays hmoder' hlost
  · exact .inr (.inl hban)

end

def Sample.dismissal : List Event :=
  [opens 0 1 97 mem_a, sends 1 1 login, sends 2 1 (ofTarget 8), sends 3 1 (ofTarget 6),
    sends 5 1 (line (utf8 "/bannick eve")), sends 7 1 (line (utf8 "/addmoder 8")),
    opens 8 2 98 mem_b, sends 9 2 login (services 8 (utf8 "eve")), sends 10 2 (ofTarget 6),
    sends 11 1 (line (utf8 "/delmoder 8"))]

/-- The dismissed moderator keeps the nick. -/
theorem dismissal_keeps_banned_nick :
    let w := run Sample.surroundings Sample.dismissal
    ¬ ∀ r, ∀ m ∈ (w.roomAt r).members, ¬ Member.isModer w m →
      (w.memberAt m).nick = [] ∨ (w.memberAt m).nick ∉ (w.roomAt r).bannedNicks := by
  intro w h
  have hm : (⟨1⟩ : MemberPtr) ∈ (w.roomAt ⟨0⟩).members := by decide +kernel
  have hmoder : ¬ Member.isModer w ⟨1⟩ := by decide +kernel
  have hworn : ¬ ((w.memberAt ⟨1⟩).nick = [] ∨ (w.memberAt ⟨1⟩).nick ∉ (w.roomAt ⟨0⟩).bannedNicks) := by
    decide +kernel
  exact hworn (h ⟨0⟩ ⟨1⟩ hm hmoder)

theorem run_banned_nicks_worn_dismissed :
    let w := run Sample.surroundings Sample.dismissal
    DemotedIn Sample.surroundings Sample.dismissal ⟨0⟩ ⟨1⟩ (w.memberAt ⟨1⟩).nick := by
  intro w
  have h := run_banned_nicks_worn Sample.surroundings Sample.dismissal ⟨0⟩ ⟨1⟩ (by decide +kernel)
    (by decide +kernel)
  have hworn : ¬ ((w.memberAt ⟨1⟩).nick = [] ∨ (w.memberAt ⟨1⟩).nick ∉ (w.roomAt ⟨0⟩).bannedNicks) := by
    decide +kernel
  exact (or_assoc.mpr h).resolve_left hworn

end WsChat
