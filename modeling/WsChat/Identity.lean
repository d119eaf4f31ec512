import WsChat.History
import WsChat.Rights
import WsChat.Sessions

/-! What is sent about a member is what the server knows about it, whatever the packet that
caused it says. -/
namespace WsChat
open Lib Relation ClientsManager

/-- The packet describes the member of the room. -/
structure PacketStatus.Describes (w : World) (r : RoomPtr) (m : MemberPtr) (p : PacketStatus) : Prop where
  member : m ∈ (w.roomAt r).members
  target : p.target = (w.roomAt r).name
  name : p.name = (w.memberAt m).nick
  memberId : p.memberId = (w.memberAt m).id
  userId : p.userId = (w.clientAt (w.memberAt m).client).uid
  girl : p.girl = (w.memberAt m).girl
  color : p.color = (w.memberAt m).color
  isOwner : p.isOwner = Member.isOwner w m
  isModer : p.isModer = Member.isModer w m

/-- The message comes from the client's own member of the room, which has a nick. -/
structure PacketMessage.SaidBy (w : World) (c : ClientPtr) (r : RoomPtr) (m : MemberPtr) (p : PacketMessage) : Prop where
  member : m ∈ (w.roomAt r).members
  client : (w.memberAt m).client = c
  target : p.target = (w.roomAt r).name
  fromId : p.fromId = (w.memberAt m).id
  fromLogin : p.fromLogin = (w.memberAt m).nick
  color : p.color = (w.memberAt m).color
  nick : p.fromLogin ≠ []

/-- The packet describes members as they are when it is sent, which is before one goes offline
or gives up its nick, and otherwise after the change. -/
def Wire.Truthful (c : ClientPtr) (w₀ w w' : World) : Wire → Prop
  | .packet (.message p) => ∃ r m, p.SaidBy w₀ c r m ∧ p.SaidBy w' c r m
  | .packet (.status p) => ∃ r m, p.Describes (if p.status = .offline then w else w') r m
  | .packet (.join p) => ∃ r, ∃ m ∈ (w'.roomAt r).members,
      p.target = (w'.roomAt r).name ∧ p.memberId = (w'.memberAt m).id ∧ p.login = (w'.memberAt m).nick
  | .packet (.onlineList p) => ∃ r, p.target = (w'.roomAt r).name ∧ ∀ q ∈ p.list, ∃ m, q.Describes w' r m
  | _ => True

section
variable {env : Env} {c : ClientPtr} {w₀ w w' : World} {S : Bytes → Prop} {r : RoomPtr} {m : MemberPtr}

theorem PacketStatus.ofMember_describes (hl : w.membership.Linked) (hm : m ∈ (w.roomAt r).members) (stat : Status)
    (data : Bytes) : (PacketStatus.ofMember w m stat data).Describes w r m where
  member := hm
  target := congrArg (fun s => (w.roomAt s).name) (hl.home r m hm)
  name := rfl
  memberId := rfl
  userId := rfl
  girl := rfl
  color := rfl
  isOwner := rfl
  isModer := by
    unfold PacketStatus.ofMember Member.isModer
    simp

theorem Wire.truthful_status (hl : w'.membership.Linked) (hm : m ∈ (w'.roomAt r).members) {stat : Status}
    (hs : stat ≠ .offline) (data : Bytes) :
    (Wire.packet (.status (PacketStatus.ofMember w' m stat data))).Truthful c w₀ w w' := by
  refine ⟨r, m, ?_⟩
  rw [if_neg (show (PacketStatus.ofMember w' m stat data).status ≠ .offline from hs)]
  exact PacketStatus.ofMember_describes hl hm stat data

theorem Wire.truthful_offline (hl : w.membership.Linked) (hm : m ∈ (w.roomAt r).members) :
    (Wire.packet (.status (PacketStatus.ofMember w m .offline))).Truthful c w₀ w w' := by
  refine ⟨r, m, ?_⟩
  rw [if_pos (show (PacketStatus.ofMember w m .offline).status = .offline from rfl)]
  exact PacketStatus.ofMember_describes hl hm .offline []

theorem Wire.truthful_list (hl : w'.membership.Linked) (r : RoomPtr) (sequenceId : Option UInt32) :
    (Wire.packet (.onlineList (PacketOnlineList.ofRoom w' r sequenceId))).Truthful c w₀ w w' := by
  refine ⟨r, rfl, fun q hq => ?_⟩
  obtain ⟨m, hm, rfl⟩ := List.mem_map.mp hq
  exact ⟨m, PacketStatus.ofMember_describes hl (IterSet.mem_elems.mp (List.mem_filter.mp hm).1) _ _⟩

theorem Wire.Plain.truthful {x : Wire} (h : x.Plain S) : x.Truthful c w₀ w w' := by
  cases x with
  | raw => trivial
  | packet p => cases p <;> trivial

theorem PacketMessage.SaidBy.of_member {v : World} {p : PacketMessage} (text : Bytes)
    (hhome : (w.memberAt m).room = r) (hm : m ∈ (w.roomAt r).members) (hc : (w.memberAt m).client = c)
    (hn : (w.memberAt m).hasNick) (hmember : v.memberAt = w.memberAt)
    (hmembers : (v.roomAt r).members = (w.roomAt r).members) (hname : (v.roomAt r).name = (w.roomAt r).name)
    (hp : p.target = (PacketMessage.ofMember w m text).target ∧ p.fromId = (PacketMessage.ofMember w m text).fromId ∧
      p.fromLogin = (PacketMessage.ofMember w m text).fromLogin ∧
      p.color = (PacketMessage.ofMember w m text).color) : p.SaidBy v c r m := by
  obtain ⟨htarget, hid, hlogin, hcolor⟩ := hp
  have hat : v.memberAt m = w.memberAt m := congrFun hmember m
  refine ⟨hmembers.symm ▸ hm, hat.symm ▸ hc, ?_, hat.symm ▸ hid, hat.symm ▸ hlogin, hat.symm ▸ hcolor, ?_⟩
  · exact htarget.trans ((congrArg (fun s => (w.roomAt s).name) hhome).trans hname.symm)
  · rw [hlogin]
    intro he
    have hempty : (w.memberAt m).nick = [] := he
    simp [Member.hasNick, hempty] at hn

def Honest (c : ClientPtr) (w₀ w w' : World) : Prop :=
  ∃ out, w'.sent = w.sent ++ out ∧ ∀ x ∈ out, x.2.Truthful c w₀ w w'

theorem Honest.silent (h : w'.sent = w.sent) : Honest c w₀ w w' := ⟨[], by rw [h, List.append_nil], by simp⟩

theorem truthful_mail {d : ClientPtr} {x : Wire} {v : World} (h : x.Truthful c w₀ w w') :
    ∀ y ∈ v.mail d x, y.2.Truthful c w₀ w w' := fun _ hy => (World.mem_mail.mp hy).2 ▸ h

theorem truthful_roomMail {x : Wire} {v : World} (h : x.Truthful c w₀ w w') :
    ∀ y ∈ v.roomMail r x, y.2.Truthful c w₀ w w' := fun _ hy => (World.mem_roomMail.mp hy).2 ▸ h

theorem truthful_append {a b : List (ConnectionPtr × Wire)} (ha : ∀ x ∈ a, x.2.Truthful c w₀ w w')
    (hb : ∀ x ∈ b, x.2.Truthful c w₀ w w') : ∀ x ∈ a ++ b, x.2.Truthful c w₀ w w' :=
  fun x hx => (List.mem_append.mp hx).elim (ha x) (hb x)

theorem Member.nickPacket_truthful (hl : w.membership.Linked) (hs : Seated w) (hm : m ∈ (w.roomAt r).members)
    (nick : Bytes) (out : List (ConnectionPtr × Wire)) :
    let w' := w.modifyMember m fun mem => { mem with nick := nick }
    (Wire.packet (.status (Member.nickPacket w' m (w.memberAt m).nick))).Truthful c w₀ w (w'.emit out) := by
  intro w'
  have hl' : (w'.emit out).membership.Linked := by
    have hf : Frame w (w'.emit out) := (Frame.modifyMember w m _ rfl rfl).trans (.emit w' out)
    exact hf.membership ▸ hl
  have hm' : m ∈ ((w'.emit out).roomAt r).members := hm
  have hown : Member.isOwner w' m = Member.isOwner w m := by
    refine Member.isOwner_congr ?_ ?_ rfl rfl <;> simp [w']
  have hmod : Member.isModer w' m = Member.isModer w m := by
    refine Member.isModer_congr ?_ ?_ rfl rfl rfl <;> simp [w']
  unfold Member.nickPacket
  dsimp only
  split
  · refine Wire.truthful_status hl' hm' ?_ []
    have hpresent := hs.present r m hm
    have hstatus : (w'.memberAt m).status = (w.memberAt m).status := by simp [w']
    rw [hstatus]
    rcases hpresent with h | h | h <;> simp [h]
  · split
    · have hpacket : ({ PacketStatus.ofMember w' m (w'.memberAt m).status with
          status := .offline, name := (w.memberAt m).nick } : PacketStatus) = PacketStatus.ofMember w m .offline := by
        unfold PacketStatus.ofMember
        simp [hown, hmod, w']
      rw [hpacket]
      exact Wire.truthful_offline hl hm
    · exact Wire.truthful_status hl' hm' (by decide) (w.memberAt m).nick

theorem Quiet.honest (hl : w.membership.Linked) (hs : Seated w) (h : Quiet env c w₀ S w w') : Honest c w₀ w w' := by
  have hl' : w'.membership.Linked := h.frame.membership ▸ hl
  cases h with
  | tell out hplain => exact ⟨out, rfl, fun x hx => (hplain x hx).truthful⟩
  | list d r sequenceId => exact ⟨_, rfl, truthful_mail (Wire.truthful_list hl' r sequenceId)⟩
  | touch | identify | dress | ban | appoint => exact .silent rfl
  | say r m style text _ hm hc hn hcalm =>
    rw [Room.say_eq]
    refine ⟨_, rfl, truthful_roomMail ⟨r, m, ?_, ?_⟩⟩
    · exact .of_member text (hl.home r m hm) hm hc hn hcalm.memberAt.symm (by rw [hcalm.roomAt])
        (by rw [hcalm.roomAt]) ⟨rfl, rfl, rfl, rfl⟩
    · exact .of_member text (hl.home r m hm) hm hc hn rfl (by simp) (by simp) ⟨rfl, rfl, rfl, rfl⟩
  | whisper r m m2 text _ hm hc hn _ _ hcalm =>
    have htrue : ∀ out, (Wire.packet (.message (PacketMessage.ofMembers w m m2 text))).Truthful c w₀ w (w.emit out) := by
      refine fun out => ⟨r, m, ?_, ?_⟩
      · exact .of_member text (hl.home r m hm) hm hc hn hcalm.memberAt.symm (by rw [hcalm.roomAt])
          (by rw [hcalm.roomAt]) ⟨rfl, rfl, rfl, rfl⟩
      · exact .of_member text (hl.home r m hm) hm hc hn rfl rfl rfl ⟨rfl, rfl, rfl, rfl⟩
    exact ⟨_, rfl, truthful_append (truthful_mail (htrue _)) (truthful_mail (htrue _))⟩
  | presence r m stat _ hm _ hs =>
    refine ⟨_, rfl, truthful_roomMail (Wire.truthful_status (r := r) hl' hm ?_ [])⟩
    rcases hs with rfl | rfl <;> decide
  | typing r m stat _ hm _ hs =>
    refine ⟨_, rfl, truthful_roomMail (Wire.truthful_status (r := r) hl' hm ?_ [])⟩
    rcases hs with rfl | rfl <;> decide
  | restyle r m girl color stat _ hm hs =>
    rw [Member.announce_eq] at hl' ⊢
    have hstat : stat ≠ .offline := by rcases hs with rfl | rfl <;> decide
    refine ⟨_, rfl, fun x hx => ?_⟩
    rw [World.announcement_status x hx]
    exact Wire.truthful_status (r := r) hl' hm hstat []
  | rename r m nick _ hm => exact ⟨_, rfl, truthful_roomMail (Member.nickPacket_truthful hl hs hm nick _)⟩

theorem World.welcomeMail_truthful {v : World} (hl : v.membership.Linked) {d : ClientPtr} (hm : m ∈ (v.roomAt r).members)
    (sequenceId : Option UInt32) (loadHistory : Bool) :
    ∀ x ∈ v.welcomeMail d r m sequenceId loadHistory, x.2.Truthful c w₀ w v := by
  have hjoin : (Wire.packet (.join (PacketJoin.ofMember v m sequenceId))).Truthful c w₀ w v :=
    ⟨r, m, hm, congrArg (fun s => (v.roomAt s).name) (hl.home r m hm), rfl, rfl⟩
  have hraw : ∀ x ∈ (v.roomAt r).history.flatMap (fun s => v.mail d (.raw s)), x.2.Truthful c w₀ w v := by
    intro x hx
    obtain ⟨s, -, hx⟩ := List.mem_flatMap.mp hx
    rw [(World.mem_mail.mp hx).2]
    trivial
  refine truthful_append (truthful_append (truthful_mail hjoin) (truthful_mail (Wire.truthful_list hl r _))) ?_
  split
  · exact hraw
  · simp

theorem World.homecoming_truthful (hl : w'.membership.Linked) {d : ClientPtr} :
    ∀ x ∈ w'.homecoming d r, x.2.Truthful c w₀ w w' := by
  unfold World.homecoming
  cases hfind : Room.findMemberByClient w' r d with
  | none => simp
  | some m =>
    have hm := (Room.mem_of_findMemberByClient hfind).1
    refine truthful_append (World.welcomeMail_truthful hl hm none true) ?_
    split
    · exact truthful_roomMail (Wire.truthful_status hl hm (by decide) [])
    · simp

theorem World.farewell_truthful (hl : w.membership.Linked) {d : ClientPtr} :
    ∀ x ∈ w.farewell d r, x.2.Truthful c w₀ w w' := by
  unfold World.farewell
  cases hfind : Room.findMemberByClient w r d with
  | none => simp
  | some m =>
    intro x hx
    rw [World.offlineMail_status x hx]
    exact Wire.truthful_offline hl (Room.mem_of_findMemberByClient hfind).1

theorem Room.kickMember_honest (hl : w.membership.Linked) (hm : m ∈ (w.roomAt r).members) :
    Honest c w₀ w (Room.kickMember env w r m) := by
  rw [Room.kickMember_eq]
  refine ⟨_, rfl, truthful_append (fun x hx => ?_) (truthful_mail trivial)⟩
  rw [World.offlineMail_status x hx]
  exact Wire.truthful_offline hl hm

theorem Move.honest (hw : WF env w) (hs : Seated w) (h : Move env c w₀ S w w') : Honest c w₀ w w' := by
  have hl := hw.linked
  have hl' : w'.membership.Linked := (hw.move h).linked
  cases h with
  | quiet h => exact h.honest hl hs
  | hang | issue => exact .silent rfl
  | enter r id sequenceId loadHistory =>
    refine ⟨_, rfl, World.welcomeMail_truthful (v := World.emit _ _) hl' ?_ sequenceId loadHistory⟩
    simp [World.enter]
  | leave r _ hr =>
    obtain ⟨m, hm⟩ := Room.findMemberByClient_isSome hl hr
    rw [Client.leaveRoom_eq hr hm]
    refine ⟨w.offlineMail r m, rfl, fun x hx => ?_⟩
    rw [World.offlineMail_status x hx]
    exact Wire.truthful_offline hl (Room.mem_of_findMemberByClient hm).1
  | kick r m _ hm => exact Room.kickMember_honest hl hm
  | banKick r m nick _ hm =>
    have hm' : m ∈ (w.roomAt r).members := List.mem_of_find?_eq_some hm
    rw [Room.kickMember_eq]
    refine ⟨_, rfl, truthful_append (fun x hx => ?_) (truthful_mail trivial)⟩
    rw [World.offlineMail_status x hx, PacketStatus.ofMember_modifyRoom w r _ m .offline [] rfl rfl rfl]
    exact Wire.truthful_offline hl hm'
  | create => exact .silent rfl
  | raze r name _ hr =>
    obtain ⟨info, out, hout, he⟩ := Server.removeRoom_eq env hl hr
    rw [he]
    refine ⟨out, rfl, fun x hx => ?_⟩
    rcases hout x hx with ⟨m, hm, hx⟩ | hx
    · rw [hx]
      exact Wire.truthful_offline hl hm
    · rw [hx]
      trivial
  | revive t k p _ hc ht hct hk hp =>
    have hl₁ : (w.emit [(k, .packet p)]).membership.Linked := hl
    have hsent := Server.reviveClient_sent env hl₁ hct hk
    refine ⟨_, hsent.trans (List.append_assoc _ _ _), ?_⟩
    refine truthful_append ?_ (truthful_append ?_ ?_)
    · intro x hx
      cases List.mem_singleton.mp hx
      exact hp.truthful
    · intro x hx
      obtain ⟨r, -, hx⟩ := List.mem_flatMap.mp hx
      exact World.farewell_truthful (w := w) hl x hx
    · intro x hx
      obtain ⟨r, -, hx⟩ := List.mem_flatMap.mp hx
      exact World.homecoming_truthful hl' x hx

theorem Steps.sent_moment (hw : WF env w) (hs : Seated w) (h : Steps env c w₀ S w w') {i : Nat}
    {x : ConnectionPtr × Wire} (hi : w.sent.length ≤ i) (hx : w'.sent[i]? = some x) :
    ∃ w₁ w₂, Steps env c w₀ S w w₁ ∧ Move env c w₀ S w₁ w₂ ∧ Steps env c w₀ S w₂ w' ∧
      w₁.sent.length ≤ i ∧ w₂.sent[i]? = some x ∧ x.2.Truthful c w₀ w₁ w₂ := by
  induction h with
  | refl =>
    rw [List.getElem?_eq_none hi] at hx
    cases hx
  | @tail w₁ w₂ hsteps hmove ih =>
    obtain ⟨out, hout, htrue⟩ := hmove.honest (hw.steps hsteps) (hs.steps hw hsteps)
    by_cases hlt : i < w₁.sent.length
    · have hx₁ : w₁.sent[i]? = some x := by
        rw [hout, List.getElem?_append_left hlt] at hx
        exact hx
      obtain ⟨v₁, v₂, h₁, hm, h₂, hle, hv⟩ := ih hx₁
      exact ⟨v₁, v₂, h₁, hm, h₂.tail hmove, hle, hv⟩
    · have hle : w₁.sent.length ≤ i := Nat.le_of_not_lt hlt
      refine ⟨w₁, w₂, hsteps, hmove, .refl, hle, hx, htrue x ?_⟩
      rw [hout, List.getElem?_append_right hle] at hx
      exact List.mem_of_getElem? hx

theorem PacketMessage.process_congr {p q : PacketMessage} (htarget : q.target = p.target) (htext : q.message = p.message)
    (w : World) (c : ClientPtr) : PacketMessage.process env w c q = PacketMessage.process env w c p := by
  unfold PacketMessage.process
  rw [htarget, htext]

end

/-- In every run what a packet makes the server send describes members as they are at that
moment; a message is said by the sender's own member, which has a nick; and of a message that
is received only the target and the text count. -/
theorem run_identity_unforgeable (env : Env) (es : List Event) (sv : AuthServices) (k : ConnectionPtr) (c : ClientPtr)
    (obj : Json) (p : Packet) (hc : findClientByConnection (run env es) k = some c)
    (hp : Packet.read env.unset obj = .ok (some p)) :
    let w := run env es
    let w' := Server.onMessage env sv w k (some obj)
    (∀ (i : Nat) (x : ConnectionPtr × Wire), w.sent.length ≤ i → w'.sent[i]? = some x →
      ∃ w₁ w₂, Steps env c w Anywhere w w₁ ∧ Move env c w Anywhere w₁ w₂ ∧ Steps env c w Anywhere w₂ w' ∧
        w₁.sent.length ≤ i ∧ w₂.sent[i]? = some x ∧ x.2.Truthful c w w₁ w₂) ∧
    ∀ (q q' : PacketMessage) (obj' : Json) (sv' : AuthServices), p = .message q →
      Packet.read env.unset obj' = .ok (some (.message q')) → q'.target = q.target → q'.message = q.message →
        Server.onMessage env sv' w k (some obj') = w' := by
  intro w w'
  have hw : WF env w := wf_run env es
  obtain ⟨hcl, hk⟩ := ClientsManager.findClientByConnection_spec hw hc
  have hsteps : Steps env c w Anywhere w w' := by
    have h := Client.onPacket_steps hw hcl hk sv (some obj)
    have he : w' = Client.onPacket env sv w c (some obj) := by
      change Server.onMessage env sv w k (some obj) = _
      simp only [Server.onMessage, w, hc]
    rw [he]
    exact h
  refine ⟨fun i x hi hx => hsteps.sent_moment hw (seated_run env es) hi hx, ?_⟩
  intro q q' obj' sv' hq hp' htarget htext
  subst hq
  change Server.onMessage env sv' w k (some obj') = Server.onMessage env sv w k (some obj)
  rw [Server.onMessage_read hc hp', Server.onMessage_read hc hp]
  exact PacketMessage.process_congr htarget htext _ c

def Sample.forged : Json :=
  .obj [(utf8 "type", .int 2), (utf8 "target", .str (utf8 "#room")), (utf8 "message", .str (utf8 "hello")),
    (utf8 "from", .uint 1), (utf8 "from_login", .str (utf8 "bob")), (utf8 "to", .uint 5)]

theorem run_identity_unforgeable_forged :
    let w := run Sample.surroundings Sample.room
    Server.onMessage Sample.surroundings Sample.bob w ⟨2⟩ (some Sample.forged) =
      Server.onMessage Sample.surroundings Sample.bob w ⟨2⟩ (some (Sample.line (utf8 "hello"))) :=
  (run_identity_unforgeable Sample.surroundings Sample.room Sample.bob ⟨2⟩ ⟨1⟩ (Sample.line (utf8 "hello"))
    (.message { target := utf8 "#room", message := utf8 "hello" }) (by decide +kernel) (by rfl)).2 _
    { target := utf8 "#room", message := utf8 "hello", toId := 5 } Sample.forged Sample.bob rfl (by rfl) rfl rfl

end WsChat
