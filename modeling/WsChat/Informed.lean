import WsChat.Views
import WsChat.Sessions
import WsChat.Rights

/-! Every packet and every chore leaves the clients with the right views of their rooms. -/
namespace WsChat
open Lib Relation ClientsManager

/-- Every client that has a connection knows its rooms. -/
def Informed (w : World) : Prop :=
  ∀ d k s, (w.clientAt d).connection = some k → s ∈ (w.clientAt d).rooms → w.Knows k s

section
variable {env : Env} {w w' : World} {c d : ClientPtr} {k : ConnectionPtr} {r s : RoomPtr} {m : MemberPtr}
  {out : List (ConnectionPtr × Wire)}

theorem World.reached (hl : w.membership.Linked) (hk : (w.clientAt d).connection = some k)
    (hs : s ∈ (w.clientAt d).rooms) :
    ∃ n ∈ (w.roomAt s).members, (w.clientAt (w.memberAt n).client).connection = some k := by
  obtain ⟨n, hn, hnd⟩ := (hl.joinedIff d s).mp hs
  have hnd' : (w.memberAt n).client = d := hnd
  exact ⟨n, hn, by rw [hnd', hk]⟩

theorem World.reached_congr (hroom : w'.roomAt = w.roomAt) (hclient : w'.clientAt = w.clientAt)
    (hwho : ∀ n, (w'.memberAt n).client = (w.memberAt n).client)
    (h : ∃ n ∈ (w.roomAt s).members, (w.clientAt (w.memberAt n).client).connection = some k) :
    ∃ n ∈ (w'.roomAt s).members, (w'.clientAt (w'.memberAt n).client).connection = some k := by
  obtain ⟨n, hn, hk⟩ := h
  refine ⟨n, by rw [hroom]; exact hn, ?_⟩
  rw [hclient, hwho]
  exact hk

theorem World.holder_unique (hw : WF env w) (hc : c ∈ w.manager.clients) (hk : (w.clientAt c).connection = some k)
    (hdk : (w.clientAt d).connection = some k) (hs : s ∈ (w.clientAt d).rooms) : d = c :=
  hw.indexed.conn_inj (hw.linked.registered_of_joined hs) hc hdk hk

theorem Frame.connection (hf : Frame w w') (d : ClientPtr) : (w'.clientAt d).connection = (w.clientAt d).connection :=
  congrFun (congrArg Registry.connection hf.registry) d

theorem Frame.rooms (hf : Frame w w') (d : ClientPtr) : s ∈ (w'.clientAt d).rooms ↔ s ∈ (w.clientAt d).rooms := by
  have hjoined := congrFun (congrArg Membership.joined hf.membership) d
  change s ∈ w'.membership.joined d ↔ s ∈ w.membership.joined d
  rw [hjoined]

theorem Informed.same (h : Informed w) (hl : w.membership.Linked)
    (hconn : ∀ d k, (w'.clientAt d).connection = some k → (w.clientAt d).connection = some k)
    (hrooms : ∀ d s, s ∈ (w'.clientAt d).rooms → s ∈ (w.clientAt d).rooms)
    (hroom : ∀ s ∈ w.rooms, (w'.roomAt s).name = (w.roomAt s).name ∧ (w'.roomAt s).members = (w.roomAt s).members)
    (hmember : ∀ s, ∀ n ∈ (w.roomAt s).members, w'.memberAt n = w.memberAt n) (hsent : w'.sent = w.sent ++ out)
    (hidle : ∀ x ∈ out, ∀ name, x.2.Idle name) : Informed w' := by
  intro d k s hk hs
  have hs' := hrooms d s hs
  obtain ⟨hname, hmembers⟩ := hroom s (hl.listed_of_joined hs')
  exact (h d k s (hconn d k hk) hs').idle hname hsent (fun x hx => hidle (k, x) hx _)
    fun _ _ => World.shows_congr hmembers (hmember s)

theorem Informed.frame (h : Informed w) (hl : w.membership.Linked) (hf : Frame w w')
    (hroom : ∀ s, (w'.roomAt s).members = (w.roomAt s).members)
    (hmember : w'.memberAt = w.memberAt) (hsent : w'.sent = w.sent ++ out)
    (hidle : ∀ x ∈ out, ∀ name, x.2.Idle name) : Informed w' := by
  refine h.same hl ?_ ?_ ?_ ?_ hsent hidle
  · exact fun d k hk => (hf.connection d).symm.trans hk
  · exact fun d s hs => (hf.rooms d).mp hs
  · intro s _
    exact ⟨congrFun (congrArg Membership.name hf.membership) s, hroom s⟩
  · intro _ n _
    rw [hmember]

theorem Informed.emit (h : Informed w) (hl : w.membership.Linked) (hidle : ∀ x ∈ out, ∀ name, x.2.Idle name) :
    Informed (w.emit out) :=
  h.frame hl (Frame.emit w out) (fun _ => rfl) rfl rfl hidle

theorem idle_mail {x : Wire} (hx : ∀ name, x.Idle name) : ∀ y ∈ w.mail c x, ∀ name, y.2.Idle name := by
  intro y hy
  rw [(World.mem_mail.mp hy).2]
  exact hx

theorem idle_roomMail {x : Wire} (hx : ∀ name, x.Idle name) : ∀ y ∈ w.roomMail r x, ∀ name, y.2.Idle name := by
  intro y hy
  rw [(World.mem_roomMail.mp hy).2]
  exact hx

theorem PacketOnlineList.idle (hl : w.membership.Linked) (hr : r ∈ w.rooms) (hs : s ∈ w.rooms) (hne : s ≠ r)
    (sequenceId : Option UInt32) :
    (Wire.packet (.onlineList (PacketOnlineList.ofRoom w r sequenceId))).Idle (w.roomAt s).name :=
  fun he => hne (hl.names s hs r hr he.symm)

theorem PacketStatus.idle (hl : w.membership.Linked) (hr : r ∈ w.rooms) (hs : s ∈ w.rooms) (hne : s ≠ r)
    {p : PacketStatus} (hp : p.target = (w.roomAt r).name) : (Wire.packet (.status p)).Idle (w.roomAt s).name := by
  intro he
  exact hne (hl.names s hs r hr (he.symm.trans hp))

theorem Informed.list (h : Informed w) (hl : w.membership.Linked) (hs : Seated w) (hr : r ∈ w.rooms)
    (sequenceId : Option UInt32) :
    Informed (w.emit (w.mail c (.packet (.onlineList (PacketOnlineList.ofRoom w r sequenceId))))) := by
  intro d k s hk hsd
  have hknown : w.Knows k s := h d k s hk hsd
  have hsr : s ∈ w.rooms := hl.listed_of_joined hsd
  set out := w.mail c (.packet (.onlineList (PacketOnlineList.ofRoom w r sequenceId)))
  by_cases hne : s = r
  · subst hne
    by_cases hin : (k, .packet (.onlineList (PacketOnlineList.ofRoom w s sequenceId))) ∈ out
    · have hview : (w.emit out).viewOf k (w.roomAt s).name = View.ofList (PacketOnlineList.ofRoom w s sequenceId).list := by
        unfold World.viewOf
        rw [World.emit_sent, feed_append, List.foldl_append]
        refine (foldl_copies ?_ ?_ (mem_feed.mpr hin) _).trans (if_pos rfl)
        · intro v
          unfold View.see
          dsimp only
          split <;> rfl
        · intro x hx
          have hsent : (k, x) ∈ out := mem_feed.mp hx
          exact .inl (World.mem_mail.mp hsent).2
      unfold World.Knows
      rw [show ((w.emit out).roomAt s).name = (w.roomAt s).name from rfl, hview]
      exact View.ofList_depicts hs sequenceId
    · refine hknown.idle rfl rfl ?_ fun _ _ => Iff.rfl
      intro x hx
      have hxe := (World.mem_mail.mp hx).2
      exact absurd (hxe ▸ hx) hin
  · refine hknown.idle rfl rfl ?_ fun _ _ => Iff.rfl
    intro x hx
    rw [(World.mem_mail.mp hx).2]
    exact PacketOnlineList.idle hl hr hsr hne sequenceId

theorem Informed.broadcast {f : Member → Member} {p : PacketStatus} (h : Informed w) (hl : w.membership.Linked)
    (hm : m ∈ (w.roomAt r).members) (hclient : (f (w.memberAt m)).client = (w.memberAt m).client)
    (hroom : (f (w.memberAt m)).room = (w.memberAt m).room) (hp : p.target = (w.roomAt r).name)
    (hstep : ∀ v : View, v.Depicts w r → (v.status p).Depicts (w.modifyMember m f) r) :
    Informed ((w.modifyMember m f).emit ((w.modifyMember m f).roomMail r (.packet (.status p)))) := by
  intro d k s hk hsd
  have hknown : w.Knows k s := h d k s hk hsd
  have hr : r ∈ w.rooms := hl.listed r m hm
  have hsr : s ∈ w.rooms := hl.listed_of_joined hsd
  have hl' : (w.modifyMember m f).membership.Linked := by
    have hf : Frame w (w.modifyMember m f) := Frame.modifyMember w m f hclient hroom
    exact hf.membership ▸ hl
  by_cases hne : s = r
  · subst hne
    refine hknown.told rfl rfl hp ?_ ?_ hstep
    · exact fun x hx => .inl (World.mem_roomMail.mp hx).2
    · exact World.mem_roomMail.mpr ⟨World.reached hl' hk hsd, rfl⟩
  · refine hknown.idle rfl rfl ?_ ?_
    · intro x hx
      rw [(World.mem_roomMail.mp hx).2]
      exact PacketStatus.idle hl hr hsr hne hp
    · intro id e
      refine World.shows_congr rfl ?_
      intro n hn
      have hnm : n ≠ m := by
        intro he
        subst he
        exact hne ((hl.home s n hn).symm.trans (hl.home r n hm))
      exact Function.update_of_ne hnm _ _

variable {w₀ : World} {S : Bytes → Prop}

theorem Status.Present.ne_offline {stat : Status} (h : stat.Present) : stat ≠ .offline := by
  rintro rfl
  simp [Status.Present] at h

theorem Status.Present.presence {stat : Status} (h : stat.Present) : stat.presence = some stat := by
  obtain rfl | rfl | rfl := h <;> rfl

theorem Informed.member {f : Member → Member} {stat : Status} {data : Bytes} (h : Informed w) (hl : w.membership.Linked)
    (hs : Seated w) (hm : m ∈ (w.roomAt r).members) (hid : (f (w.memberAt m)).id = (w.memberAt m).id)
    (hclient : (f (w.memberAt m)).client = (w.memberAt m).client)
    (hroom : (f (w.memberAt m)).room = (w.memberAt m).room) (hstat : stat ≠ .offline)
    (hnick : (w.memberAt m).nick ≠ [] → (f (w.memberAt m)).nick ≠ [])
    (hpresence : (f (w.memberAt m)).nick ≠ [] → stat.presence = some (f (w.memberAt m)).status ∨
      (stat.presence = none ∧ (w.memberAt m).nick ≠ [] ∧ (f (w.memberAt m)).status = (w.memberAt m).status))
    (hout : ∀ x ∈ out, x.2 = .packet (.status (PacketStatus.ofMember (w.modifyMember m f) m stat data)))
    (hall : (f (w.memberAt m)).nick ≠ [] → out = (w.modifyMember m f).roomMail r
      (.packet (.status (PacketStatus.ofMember (w.modifyMember m f) m stat data)))) :
    Informed ((w.modifyMember m f).emit out) := by
  have hself : (w.modifyMember m f).memberAt m = f (w.memberAt m) := Function.update_self ..
  have hothers : ∀ n, n ≠ m → (w.modifyMember m f).memberAt n = w.memberAt n :=
    fun n hn => Function.update_of_ne hn _ _
  have hframe : Frame w (w.modifyMember m f) := Frame.modifyMember w m f hclient hroom
  have hl' : (w.modifyMember m f).membership.Linked := hframe.membership ▸ hl
  have hhome : ((w.modifyMember m f).memberAt m).room = r := by
    rw [hself, hroom]
    exact hl.home r m hm
  intro d k s hk hsd
  have hknown : w.Knows k s := h d k s hk hsd
  by_cases hne : s = r
  · subst hne
    rw [← hself] at hid hnick hpresence hall
    have htold : ∀ x, (k, x) ∈ out → x = .packet (.status (PacketStatus.ofMember ((w.modifyMember m f).emit out) m
        stat data)) ∨ x.Idle (w.roomAt s).name := fun x hx => .inl (hout _ hx)
    refine hknown.changed hs hm hhome rfl rfl hid (fun n _ hn => hothers n hn) rfl hstat hnick hpresence htold ?_
    intro hn
    have hmail := hall hn
    rw [hmail]
    exact World.mem_roomMail.mpr ⟨World.reached hl' hk hsd, rfl⟩
  · have htarget : (PacketStatus.ofMember (w.modifyMember m f) m stat data).target = (w.roomAt r).name := by
      rw [← hhome]
      rfl
    refine hknown.idle rfl rfl ?_ ?_
    · intro x hx
      have hxe : x = .packet (.status (PacketStatus.ofMember (w.modifyMember m f) m stat data)) := hout _ hx
      rw [hxe]
      exact PacketStatus.idle hl (hl.listed r m hm) (hl.listed_of_joined hsd) hne htarget
    · intro id e
      refine World.shows_congr rfl ?_
      intro n hn
      refine hothers n ?_
      intro he
      subst he
      exact hne ((hl.home s n hn).symm.trans (hl.home r n hm))

theorem Informed.restyle (h : Informed w) (hl : w.membership.Linked) (hs : Seated w) (hm : m ∈ (w.roomAt r).members)
    (girl : Bool) (color : Bytes) {stat : Status} (hstat : stat = .genderChange ∨ stat = .colorChange) :
    Informed (Member.announce env (w.modifyMember m fun mem => { mem with girl := girl, color := color }) m stat) := by
  have hnone : stat ≠ .offline ∧ stat.presence = none := by
    obtain rfl | rfl := hstat
    · exact ⟨by decide, rfl⟩
    · exact ⟨by decide, rfl⟩
  have hhome : (w.memberAt m).room = r := hl.home r m hm
  rw [Member.announce_eq]
  refine h.member hl hs hm rfl rfl rfl hnone.1 id (fun hn => .inr ⟨hnone.2, hn, rfl⟩) World.announcement_status ?_
  intro hn
  unfold World.announcement
  dsimp only
  rw [if_pos (by simpa [Member.hasNick] using hn)]
  simp [hhome]

theorem Informed.rename (h : Informed w) (hl : w.membership.Linked) (hs : Seated w) (hm : m ∈ (w.roomAt r).members)
    (nick : Bytes) :
    let w' := w.modifyMember m fun mem => { mem with nick := nick }
    Informed (w'.emit (w'.roomMail r (.packet (.status (Member.nickPacket w' m (w.memberAt m).nick))))) := by
  intro w'
  have hhome : (w.memberAt m).room = r := hl.home r m hm
  have hself : w'.memberAt m = { w.memberAt m with nick := nick } := Function.update_self ..
  have hpresent : (w.memberAt m).status.Present := hs.present r m hm
  by_cases hold : (w.memberAt m).nick = []
  · have hpacket : Member.nickPacket w' m (w.memberAt m).nick = PacketStatus.ofMember w' m (w.memberAt m).status := by
      unfold Member.nickPacket
      rw [if_pos hold, hself]
    rw [hpacket]
    refine h.member hl hs hm rfl rfl rfl hpresent.ne_offline (fun hn => absurd hold hn) (fun _ => .inl hpresent.presence)
      ?_ fun _ => rfl
    exact fun x hx => (World.mem_roomMail.mp hx).2
  · by_cases hnew : nick = []
    · have hpacket : Member.nickPacket w' m (w.memberAt m).nick =
          { PacketStatus.ofMember w' m (w.memberAt m).status with status := .offline, name := (w.memberAt m).nick } := by
        unfold Member.nickPacket
        rw [if_neg hold, if_pos (by rw [hself]; exact hnew), hself]
      rw [hpacket]
      refine h.broadcast hl hm rfl rfl ?_ ?_
      · rw [← hhome]
        change (w.roomAt (w'.memberAt m).room).name = _
        rw [hself]
      · intro v hv
        refine hv.gone rfl ?_
        intro id e
        have hshows : w'.Shows r id e ↔ if id = (w.memberAt m).id
            then (w'.memberAt m).nick ≠ [] ∧ e = Entry.ofMember (w'.memberAt m) else w.Shows r id e :=
          World.shows_change hs hm rfl (by rw [hself]) fun n _ hn => Function.update_of_ne hn _ _
        have hmember : (PacketStatus.ofMember w' m (w.memberAt m).status).memberId = (w.memberAt m).id :=
          (congrArg Member.id hself).trans rfl
        rw [hshows, hself, hmember]
        by_cases hid : id = (w.memberAt m).id
        · simp [hid, hnew]
        · simp [hid]
    · have hpacket : Member.nickPacket w' m (w.memberAt m).nick =
          PacketStatus.ofMember w' m .nickChange (w.memberAt m).nick := by
        unfold Member.nickPacket
        rw [if_neg hold, if_neg (by rw [hself]; exact hnew)]
        rfl
      rw [hpacket]
      refine h.member hl hs hm rfl rfl rfl (by decide) (fun _ => hnew) (fun _ => .inr ⟨rfl, hold, rfl⟩) ?_ fun _ => rfl
      exact fun x hx => (World.mem_roomMail.mp hx).2

theorem Informed.quiet (h : Informed w) (hw : WF env w) (hs : Seated w) (hq : Quiet env c w₀ S w w') : Informed w' := by
  have hf : Frame w w' := hq.frame
  have hl := hw.linked
  cases hq with
  | tell out hplain => exact h.emit hl fun x hx => (hplain x hx).idle
  | list d r sequenceId _ hr => exact h.list hl hs hr sequenceId
  | touch => exact h.frame hl hf (fun _ => rfl) rfl (List.append_nil _).symm (by simp)
  | identify => exact h.frame hl hf (fun _ => rfl) rfl (List.append_nil _).symm (by simp)
  | say r =>
    rw [Room.say_eq] at hf ⊢
    refine h.frame hl hf ?_ rfl rfl (idle_roomMail fun _ => trivial)
    intro s
    by_cases hne : s = r
    · subst hne
      simp
    · simp [hne]
  | whisper r m m2 text =>
    refine h.emit hl ?_
    intro x hx
    cases List.mem_append.mp hx with
    | inl hx =>
      rw [(World.mem_mail.mp hx).2]
      exact fun _ => trivial
    | inr hx =>
      rw [(World.mem_mail.mp hx).2]
      exact fun _ => trivial
  | presence r m stat _ hm hn hstat =>
    have hnamed : (w.memberAt m).nick ≠ [] := by simpa [Member.hasNick] using hn
    rw [Member.setStatus_eq]
    refine h.member hl hs hm rfl rfl rfl ?_ id ?_ (fun x hx => (World.mem_roomMail.mp hx).2) fun _ => rfl
    · obtain rfl | rfl := hstat
      · decide
      · decide
    · intro _
      obtain rfl | rfl := hstat
      · exact .inl rfl
      · exact .inl rfl
  | typing r m stat _ hm hn hstat =>
    have hnamed : (w.memberAt m).nick ≠ [] := by simpa [Member.hasNick] using hn
    have hnone : stat ≠ .offline ∧ stat.presence = none := by
      obtain rfl | rfl := hstat
      · exact ⟨by decide, rfl⟩
      · exact ⟨by decide, rfl⟩
    have hsame : w.modifyMember m id = w := by
      unfold World.modifyMember
      rw [id, Function.update_eq_self]
    have htold : Informed ((w.modifyMember m id).emit
        ((w.modifyMember m id).roomMail r (.packet (.status (PacketStatus.ofMember (w.modifyMember m id) m stat))))) :=
      h.member hl hs hm rfl rfl rfl hnone.1 id (fun hn => .inr ⟨hnone.2, hn, rfl⟩)
        (fun x hx => (World.mem_roomMail.mp hx).2) fun _ => rfl
    rwa [hsame] at htold
  | restyle r m girl color stat _ hm hstat => exact h.restyle hl hs hm girl color hstat
  | dress r m girl color _ hm hn =>
    let dressed (mem : Member) : Member := { mem with girl := girl, color := color }
    have hnothing : ∀ x ∈ ([] : List (ConnectionPtr × Wire)),
        x.2 = .packet (.status (PacketStatus.ofMember (w.modifyMember m dressed) m .colorChange)) := by simp
    rw [← World.emit_nil (w.modifyMember m _)]
    exact h.member hl hs hm rfl rfl rfl (by decide) id (fun hnamed => absurd hn hnamed) hnothing
      fun hnamed => absurd hn hnamed
  | rename r m nick _ hm => exact h.rename hl hs hm nick
  | ban r =>
    refine h.frame hl hf ?_ rfl (List.append_nil _).symm (by simp)
    intro s
    by_cases hne : s = r
    · subst hne
      simp
    · simp [hne]
  | appoint r =>
    refine h.frame hl hf ?_ rfl (List.append_nil _).symm (by simp)
    intro s
    by_cases hne : s = r
    · subst hne
      simp
    · simp [hne]

theorem Informed.departs (h : Informed w) (hl : w.membership.Linked) (hs : Seated w) (hm : m ∈ (w.roomAt r).members)
    (hconn : ∀ d k, (w'.clientAt d).connection = some k → (w.clientAt d).connection = some k)
    (hrooms : ∀ d s, s ∈ (w'.clientAt d).rooms → s ∈ (w.clientAt d).rooms)
    (hname : ∀ s, (w'.roomAt s).name = (w.roomAt s).name)
    (hmembers : ∀ s n, n ∈ (w'.roomAt s).members ↔ n ∈ (w.roomAt s).members ∧ n ≠ m)
    (hmember : w'.memberAt = w.memberAt) (hsent : w'.sent = w.sent ++ (w.offlineMail r m ++ out))
    (hidle : ∀ x ∈ out, ∀ name, x.2.Idle name) : Informed w' := by
  intro d k s hk hsd
  have hk' := hconn d k hk
  have hsd' := hrooms d s hsd
  have hknown : w.Knows k s := h d k s hk' hsd'
  have hhome : (w.memberAt m).room = r := hl.home r m hm
  have hsame : ∀ s, ∀ n ∈ (w.roomAt s).members, w'.memberAt n = w.memberAt n := by
    intro _ n _
    rw [hmember]
  by_cases hne : s = r
  · subst hne
    refine hknown.without hs hm hhome (hname s) (hmembers s) (hsame s) hsent ?_ ?_ (World.reached hl hk' hsd')
    · intro x hx
      exact (List.mem_append.mp hx).imp_right fun hx => hidle _ hx _
    · exact fun x hx => List.mem_append_left _ hx
  · refine hknown.idle (hname s) hsent ?_ ?_
    · intro x hx
      cases List.mem_append.mp hx with
      | inl hx =>
        have hxe : x = .packet (.status (PacketStatus.ofMember w m .offline)) := World.offlineMail_status _ hx
        rw [hxe]
        refine PacketStatus.idle hl (hl.listed r m hm) (hl.listed_of_joined hsd') hne ?_
        rw [← hhome]
        rfl
      | inr hx => exact hidle _ hx _
    · intro id e
      unfold World.Shows
      refine exists_congr fun n => ?_
      have hother : n ∈ (w.roomAt s).members → n ≠ m := by
        intro hn he
        subst he
        exact hne ((hl.home s n hn).symm.trans hhome)
      rw [hmembers, hmember]
      exact and_congr_left fun _ => and_iff_left_of_imp hother

theorem Informed.kick (h : Informed w) (hl : w.membership.Linked) (hs : Seated w) (hm : m ∈ (w.roomAt r).members) :
    Informed (Room.kickMember env w r m) := by
  rw [Room.kickMember_eq]
  have hhome : (w.memberAt m).room = r := hl.home r m hm
  have hleave : ∀ x ∈ w.mail (w.memberAt m).client (.packet (.leave { target := (w.roomAt r).name })),
      ∀ name, x.2.Idle name := idle_mail fun _ => trivial
  refine h.departs hl hs hm ?_ ?_ ?_ ?_ rfl rfl hleave
  · intro d k hk
    by_cases hd : d = (w.memberAt m).client
    · subst hd
      simpa using hk
    · simpa [hd] using hk
  · intro d s hsd
    by_cases hd : d = (w.memberAt m).client
    · subst hd
      simp at hsd
      exact hsd.2
    · simpa [hd] using hsd
  · intro s
    by_cases hne : s = r
    · subst hne
      simp
    · simp [hne]
  · intro s n
    by_cases hne : s = r
    · subst hne
      simp [and_comm]
    · have hother : n ∈ (w.roomAt s).members → n ≠ m := by
        intro hn he
        subst he
        exact hne ((hl.home s n hn).symm.trans hhome)
      simpa [hne] using hother

theorem Informed.leave (h : Informed w) (hl : w.membership.Linked) (hs : Seated w) (hr : r ∈ (w.clientAt c).rooms) :
    Informed (Client.leaveRoom env w c r) := by
  obtain ⟨m, hfind⟩ := Room.findMemberByClient_isSome hl hr
  obtain ⟨hm, -⟩ := Room.mem_of_findMemberByClient hfind
  have hhome : (w.memberAt m).room = r := hl.home r m hm
  have hnothing : ∀ x ∈ ([] : List (ConnectionPtr × Wire)), ∀ name, x.2.Idle name := by simp
  rw [Client.leaveRoom_eq hr hfind]
  refine h.departs hl hs hm ?_ ?_ ?_ ?_ rfl (congrArg (w.sent ++ ·) (List.append_nil _).symm) hnothing
  · intro d k hk
    by_cases hd : d = c
    · subst hd
      simpa using hk
    · simpa [hd] using hk
  · intro d s hsd
    by_cases hd : d = c
    · subst hd
      simp at hsd
      exact hsd.2
    · simpa [hd] using hsd
  · intro s
    by_cases hne : s = r
    · subst hne
      simp
    · simp [hne]
  · intro s n
    by_cases hne : s = r
    · subst hne
      simp [and_comm]
    · have hother : n ∈ (w.roomAt s).members → n ≠ m := by
        intro hn he
        subst he
        exact hne ((hl.home s n hn).symm.trans hhome)
      simpa [hne] using hother

/-- After the list of a room all that is told of the room is what the list has. -/
theorem World.Knows.of_list {a b : List (ConnectionPtr × Wire)} {sequenceId : Option UInt32} (hs : Seated w')
    (hsent : w'.sent = a ++ b) (hin : (k, .packet (.onlineList (PacketOnlineList.ofRoom w' r sequenceId))) ∈ b)
    (hall : ∀ x, (k, x) ∈ b → x = .packet (.onlineList (PacketOnlineList.ofRoom w' r sequenceId)) ∨
      x.Idle (w'.roomAt r).name) : w'.Knows k r := by
  have hview : w'.viewOf k (w'.roomAt r).name = View.ofList (PacketOnlineList.ofRoom w' r sequenceId).list := by
    unfold World.viewOf
    rw [hsent, feed_append, List.foldl_append]
    refine (foldl_copies ?_ ?_ (mem_feed.mpr hin) _).trans (if_pos rfl)
    · intro v
      unfold View.see
      dsimp only
      split <;> rfl
    · intro x hx
      exact (hall x (mem_feed.mp hx)).imp_right fun hidle => hidle.see
  unfold World.Knows
  rw [hview]
  exact View.ofList_depicts hs sequenceId

theorem World.mem_welcomeMail {x : Wire} {sequenceId : Option UInt32} {loadHistory : Bool}
    (h : (k, x) ∈ w.welcomeMail c r m sequenceId loadHistory) :
    (w.clientAt c).connection = some k ∧
      (x = .packet (.onlineList (PacketOnlineList.ofRoom w r sequenceId)) ∨ ∀ name, x.Idle name) := by
  unfold World.welcomeMail at h
  rw [List.mem_append, List.mem_append] at h
  obtain (h | h) | h := h
  · obtain ⟨hk, rfl⟩ := World.mem_mail.mp h
    exact ⟨hk, .inr fun _ => trivial⟩
  · obtain ⟨hk, rfl⟩ := World.mem_mail.mp h
    exact ⟨hk, .inl rfl⟩
  · split at h
    · obtain ⟨line, -, hline⟩ := List.mem_flatMap.mp h
      obtain ⟨hk, rfl⟩ := World.mem_mail.mp hline
      exact ⟨hk, .inr fun _ => trivial⟩
    · cases h

theorem World.list_mem_welcomeMail {sequenceId : Option UInt32} {loadHistory : Bool}
    (hk : (w.clientAt c).connection = some k) :
    (k, .packet (.onlineList (PacketOnlineList.ofRoom w r sequenceId))) ∈ w.welcomeMail c r m sequenceId loadHistory :=
  List.mem_append_left _ (List.mem_append_right _ (World.mem_mail.mpr ⟨hk, rfl⟩))

theorem Informed.enter (h : Informed w) (hw : WF env w) (hs : Seated w) {id : UInt32} {sequenceId : Option UInt32}
    {loadHistory : Bool} (hc : c ∈ w.manager.clients) (hr : r ∈ w.rooms) (hcr : r ∉ (w.clientAt c).rooms)
    (hid : Room.genNextMemberId w r = some id) :
    let w' := w.enter c r id
    Informed (w'.emit (w'.welcomeMail c r ⟨w.nextMember⟩ sequenceId loadHistory)) := by
  intro w'
  have hl := hw.linked
  have hs' : Seated w' := hs.enter hl c hid
  have hl' : w'.membership.Linked := by
    have he : Evolves w w.registry _ w' := enter_evolves w c r id
    exact he.membership ▸ hl.enter w.not_issued hc hr hcr
  have hconn : ∀ d, (w'.clientAt d).connection = (w.clientAt d).connection := by
    intro d
    by_cases hd : d = c
    · subst hd
      simp [w', World.enter]
    · simp [w', World.enter, hd]
  have hname : ∀ s, (w'.roomAt s).name = (w.roomAt s).name := by
    intro s
    by_cases hne : s = r
    · subst hne
      simp [w', World.enter]
    · simp [w', World.enter, hne]
  have hrooms : w'.rooms = w.rooms := rfl
  intro d k s hk hsd
  have hk' : (w.clientAt d).connection = some k := (hconn d).symm.trans hk
  have hout : ∀ x, (k, x) ∈ w'.welcomeMail c r ⟨w.nextMember⟩ sequenceId loadHistory →
      x = .packet (.onlineList (PacketOnlineList.ofRoom w' r sequenceId)) ∨ x.Idle (w'.roomAt s).name :=
    fun x hx => (World.mem_welcomeMail hx).2.imp_right fun hidle => hidle _
  have hsr : s ∈ w'.rooms := hl'.listed_of_joined hsd
  by_cases hnew : d = c ∧ s = r
  · obtain ⟨rfl, rfl⟩ := hnew
    have hseated : Seated (w'.emit (w'.welcomeMail d s ⟨w.nextMember⟩ sequenceId loadHistory)) :=
      hs'.congr rfl fun _ => rfl
    exact World.Knows.of_list hseated rfl (World.list_mem_welcomeMail hk) hout
  · have hsd' : s ∈ (w.clientAt d).rooms := by
      by_cases hd : d = c
      · subst hd
        have hsr : s ≠ r := fun he => hnew ⟨rfl, he⟩
        simpa [w', World.enter, hsr] using hsd
      · simpa [w', World.enter, hd] using hsd
    have hknown : w.Knows k s := h d k s hk' hsd'
    refine hknown.idle (hname s) rfl ?_ ?_
    · intro x hx
      rw [← hname s]
      have hck : (w.clientAt c).connection = some k := (hconn c).symm.trans (World.mem_welcomeMail hx).1
      have hdc : d = c := World.holder_unique hw hc hck hk' hsd'
      cases hout x hx with
      | inl he =>
        rw [he]
        exact PacketOnlineList.idle hl' (by rw [hrooms]; exact hr) hsr (fun he => hnew ⟨hdc, he⟩) sequenceId
      | inr hidle => exact hidle
    · intro id' e
      unfold World.Shows
      have hmembers : ∀ n, n ∈ (w'.roomAt s).members ↔ n ∈ (w.roomAt s).members ∨ (s = r ∧ n = ⟨w.nextMember⟩) :=
        fun n => World.mem_enter
      constructor
      · intro hshown
        obtain ⟨n, hn, hnick, hrest⟩ := hshown
        cases (hmembers n).mp hn with
        | inl hold =>
          have hsame : w'.memberAt n = w.memberAt n := World.memberAt_enter_old hl hold
          refine ⟨n, hold, ?_⟩
          rw [← hsame]
          exact ⟨hnick, hrest⟩
        | inr hself =>
          obtain ⟨-, rfl⟩ := hself
          have hself : w'.memberAt ⟨w.nextMember⟩ = _ := World.memberAt_enter_new w c r id
          change (w'.memberAt ⟨w.nextMember⟩).nick ≠ [] at hnick
          rw [hself] at hnick
          exact absurd rfl hnick
      · intro hshown
        obtain ⟨n, hold, hrest⟩ := hshown
        have hsame : w'.memberAt n = w.memberAt n := World.memberAt_enter_old hl hold
        refine ⟨n, (hmembers n).mpr (.inl hold), ?_⟩
        change (w'.memberAt n).nick ≠ [] ∧ (w'.memberAt n).id = id' ∧ Entry.ofMember (w'.memberAt n) = e
        rw [hsame]
        exact hrest

theorem World.mem_farewell {x : ConnectionPtr × Wire} (h : x ∈ w.farewell c s) :
    ∃ n, Room.findMemberByClient w s c = some n ∧ x ∈ w.offlineMail s n := by
  unfold World.farewell at h
  cases hfind : Room.findMemberByClient w s c with
  | none =>
    rw [hfind] at h
    cases h
  | some n =>
    rw [hfind] at h
    exact ⟨n, rfl, h⟩

theorem Informed.withdraw (h : Informed w) (hl : w.membership.Linked) (hs : Seated w) (c : ClientPtr) :
    Informed (w.withdraw c) := by
  intro d k s hk hsd
  have hdc : d ≠ c := by
    rintro rfl
    simp [World.withdraw] at hk
  have hk' : (w.clientAt d).connection = some k := by simpa [World.withdraw, hdc] using hk
  have hsd' : s ∈ (w.clientAt d).rooms := by simpa [World.withdraw, hdc] using hsd
  have hknown : w.Knows k s := h d k s hk' hsd'
  have hmembers : ∀ n, n ∈ ((w.withdraw c).roomAt s).members ↔
      n ∈ (w.roomAt s).members ∧ (w.memberAt n).client ≠ c := World.mem_without hl c s
  have hname : ((w.withdraw c).roomAt s).name = (w.roomAt s).name := by
    unfold World.withdraw World.withoutMember
    dsimp only
    split
    · split <;> rfl
    · rfl
  have hsent : (w.withdraw c).sent = w.sent ++ (w.clientAt c).rooms.elems.flatMap (w.farewell c) := rfl
  have hother : ∀ x, ∀ r ∈ (w.clientAt c).rooms, r ≠ s → (k, x) ∈ w.farewell c r → x.Idle (w.roomAt s).name := by
    intro x r hr hne hx
    obtain ⟨n, hn, hx⟩ := World.mem_farewell hx
    have hin := (Room.mem_of_findMemberByClient hn).1
    have hxe : x = .packet (.status (PacketStatus.ofMember w n .offline)) := World.offlineMail_status _ hx
    rw [hxe]
    refine PacketStatus.idle hl (hl.listed r n hin) (hl.listed_of_joined hsd') hne.symm ?_
    have hhome : (w.memberAt n).room = r := hl.home r n hin
    rw [← hhome]
    rfl
  by_cases hsc : s ∈ (w.clientAt c).rooms
  · obtain ⟨m, hm⟩ := Room.findMemberByClient_isSome hl hsc
    obtain ⟨hin, hmc⟩ := Room.mem_of_findMemberByClient hm
    have hfarewell : w.farewell c s = w.offlineMail s m := by
      unfold World.farewell
      rw [hm]
    refine hknown.without hs hin (hl.home s m hin) hname ?_ (fun _ _ => rfl) hsent ?_ ?_ (World.reached hl hk' hsd')
    · intro n
      rw [hmembers]
      refine and_congr_right fun hn => not_congr ?_
      constructor
      · intro hnc
        exact hl.unique s n hn m hin (hnc.trans hmc.symm)
      · intro hnm
        rw [hnm, hmc]
    · intro x hx
      obtain ⟨r, hr, hx⟩ := List.mem_flatMap.mp hx
      by_cases hrs : r = s
      · subst hrs
        exact .inl (hfarewell ▸ hx)
      · exact .inr (hother x r (IterSet.mem_elems.mp hr) hrs hx)
    · intro x hx
      exact List.mem_flatMap.mpr ⟨s, IterSet.mem_elems.mpr hsc, hfarewell ▸ hx⟩
  · refine hknown.idle hname hsent ?_ ?_
    · intro x hx
      obtain ⟨r, hr, hx⟩ := List.mem_flatMap.mp hx
      refine hother x r (IterSet.mem_elems.mp hr) ?_ hx
      rintro rfl
      exact hsc (IterSet.mem_elems.mp hr)
    · intro id e
      refine World.shows_congr ?_ fun _ _ => rfl
      exact congrArg Room.members (if_neg hsc)

theorem Informed.drop (h : Informed w) (hl : w.membership.Linked) (hs : Seated w) (c : ClientPtr) :
    Informed (remove env w c) := by
  have hgone : Informed (w.withdraw c) := h.withdraw hl hs c
  have hnormal : ∃ manager clamped, remove env w c =
      { w.withdraw c with manager := manager, clamped := clamped } := remove_normal hl
  obtain ⟨manager, clamped, he⟩ := hnormal
  rw [he]
  exact hgone

theorem Informed.raze (h : Informed w) (hl : w.membership.Linked) {name : Bytes}
    (hr : Server.getRoomByName w name = some r) : Informed (Server.removeRoom env w name) := by
  obtain ⟨info, out, hout, he⟩ := Server.removeRoom_eq env hl hr
  have hin : r ∈ w.rooms := (Server.mem_of_getRoomByName hr).1
  rw [he]
  intro d k s hk hsd
  have hk' : (w.clientAt d).connection = some k := by
    dsimp only at hk
    split at hk
    · exact hk
    · exact hk
  have hsd' : s ∈ (w.clientAt d).rooms ∧ s ≠ r := by
    dsimp only at hsd
    split at hsd
    · exact ⟨(IterSet.mem_erase.mp hsd).2, (IterSet.mem_erase.mp hsd).1⟩
    · rename_i hno
      refine ⟨hsd, ?_⟩
      rintro rfl
      obtain ⟨m, hm, hmd⟩ := (hl.joinedIff d s).mp hsd
      exact hno (List.mem_map.mpr ⟨m, IterSet.mem_elems.mpr hm, hmd⟩)
  obtain ⟨hsd', hne⟩ := hsd'
  have hroom : Function.update w.roomAt r { w.roomAt r with membersInfo := info, members := ∅ } s = w.roomAt s :=
    Function.update_of_ne hne _ _
  refine (h d k s hk' hsd').idle (congrArg Room.name hroom) rfl ?_ ?_
  · intro x hx
    cases hout _ hx with
    | inl hgone =>
      obtain ⟨m, hm, hxe⟩ := hgone
      have hxe : x = .packet (.status (PacketStatus.ofMember w m .offline)) := hxe
      rw [hxe]
      refine PacketStatus.idle hl hin (hl.listed_of_joined hsd') hne ?_
      have hhome : (w.memberAt m).room = r := hl.home r m hm
      rw [← hhome]
      rfl
    | inr hleave =>
      have hxe : x = .packet (.leave { target := (w.roomAt r).name }) := hleave
      rw [hxe]
      trivial
  · intro id e
    exact World.shows_congr (congrArg Room.members hroom) fun _ _ => rfl

theorem World.Knows.settled {t : ClientPtr} {l : List RoomPtr} {stat : Status} (told : Status) (h : w.Knows k s)
    (hl : w.membership.Linked) (hs : Seated w) (hsr : s ∈ w.rooms)
    (hmember : w'.memberAt = (w.settle t l stat).memberAt) (hroom : w'.roomAt = w.roomAt)
    (hsent : w'.sent = w.sent ++ out) (htold : told.presence = some stat)
    (hout : ∀ x, (k, x) ∈ out → ∃ r ∈ l, ∃ n, Room.findMemberByClient w r t = some n ∧
      x = .packet (.status (PacketStatus.ofMember w' n told)))
    (hin : ∀ n, s ∈ l → Room.findMemberByClient w s t = some n → (w'.memberAt n).nick ≠ [] →
      (k, .packet (.status (PacketStatus.ofMember w' n told))) ∈ out) : w'.Knows k s := by
  have hoff : told ≠ .offline := by
    rintro rfl
    cases htold
  have hturned : ∀ r n, r ∈ l → Room.findMemberByClient w r t = some n →
      w'.memberAt n = Member.turned w.now stat (w.memberAt n) := by
    intro r n hr hn
    rw [hmember]
    exact if_pos ⟨r, hr, hn⟩
  have hother : ∀ x : Wire, ∀ r ∈ l, ∀ n, Room.findMemberByClient w r t = some n → r ≠ s →
      x = .packet (.status (PacketStatus.ofMember w' n told)) → x.Idle (w.roomAt s).name := by
    intro x r hr n hn hne hxe
    have hnr := (Room.mem_of_findMemberByClient hn).1
    rw [hxe]
    refine PacketStatus.idle hl (hl.listed r n hnr) hsr hne.symm ?_
    have hhome : (w'.memberAt n).room = r := by
      rw [hturned r n hr hn]
      exact hl.home r n hnr
    rw [← hhome, ← hroom]
    rfl
  have hname : (w'.roomAt s).name = (w.roomAt s).name := by rw [hroom]
  have hmembers : (w'.roomAt s).members = (w.roomAt s).members := by rw [hroom]
  by_cases hsome : s ∈ l ∧ ∃ m, Room.findMemberByClient w s t = some m
  · obtain ⟨hsl, m, hm⟩ := hsome
    have hms := (Room.mem_of_findMemberByClient hm).1
    have hself := hturned s m hsl hm
    refine h.changed hs hms ?_ hname hmembers (by rw [hself]; rfl) ?_ hsent hoff ?_ ?_ ?_ (hin m hsl hm)
    · rw [hself]
      exact hl.home s m hms
    · intro n hn hnm
      rw [hmember]
      refine if_neg ?_
      rintro ⟨r, hr, hfound⟩
      have hnr := (Room.mem_of_findMemberByClient hfound).1
      have hrs : r = s := (hl.home r n hnr).symm.trans (hl.home s n hn)
      rw [hrs, hm] at hfound
      exact hnm (Option.some.inj hfound).symm
    · rw [hself]
      exact fun hn => hn
    · intro _
      rw [hself]
      exact .inl htold
    · intro x hx
      obtain ⟨r, hr, n, hn, hxe⟩ := hout x hx
      by_cases hrs : r = s
      · subst hrs
        have hnm : n = m := Option.some.inj (hn.symm.trans hm)
        exact .inl (hnm ▸ hxe)
      · exact .inr (hother x r hr n hn hrs hxe)
  · refine h.idle hname hsent ?_ ?_
    · intro x hx
      obtain ⟨r, hr, n, hn, hxe⟩ := hout x hx
      refine hother x r hr n hn ?_ hxe
      rintro rfl
      exact hsome ⟨hr, n, hn⟩
    · intro id e
      refine World.shows_congr hmembers ?_
      intro n hn
      rw [hmember]
      refine if_neg ?_
      rintro ⟨r, hr, hfound⟩
      have hnr := (Room.mem_of_findMemberByClient hfound).1
      have hrs : r = s := (hl.home r n hnr).symm.trans (hl.home s n hn)
      subst hrs
      exact hsome ⟨hr, n, hfound⟩

theorem Informed.orphan (h : Informed w) (hw : WF env w) (hs : Seated w) (hc : c ∈ w.manager.clients) :
    Informed (makeOrphan env w c) := by
  have hl := hw.linked
  cases hck : (w.clientAt c).connection with
  | none =>
    have hsame : makeOrphan env w c = w := by
      unfold makeOrphan
      rw [hck]
    rwa [hsame]
  | some k₀ =>
    obtain ⟨manager, clamped, he⟩ := makeOrphan_normal hw.indexed hl hc hck
    rw [he]
    dsimp only
    set u := w.unplug c with hu
    have hfind : ∀ r d, Room.findMemberByClient u r d = Room.findMemberByClient w r d := fun _ _ => rfl
    intro d k s hk hsd
    have hclient : ∀ d, (u.clientAt d).rooms = (w.clientAt d).rooms := by
      intro d
      by_cases hd : d = c
      · subst hd
        simp [hu, World.unplug]
      · simp [hu, World.unplug, hd]
    have hdc : d ≠ c := by
      rintro rfl
      have hnone : (u.clientAt d).connection = none := by simp [hu, World.unplug]
      exact absurd (hnone.symm.trans hk) (by simp)
    have hk' : (w.clientAt d).connection = some k := by
      have hsame : u.clientAt d = w.clientAt d := by simp [hu, World.unplug, hdc]
      rw [← hsame]
      exact hk
    have hsd' : s ∈ (w.clientAt d).rooms := by
      rw [← hclient d]
      exact hsd
    have hknown : u.Knows k s := h d k s hk' hsd'
    have hlu : u.membership.Linked := by
      have hm : u.membership = w.membership := membership_modifyClient w c _ rfl
      exact hm ▸ hl
    have hsu : Seated u := hs.congr rfl fun _ => rfl
    generalize hw' : ({ u.settle c (w.clientAt c).rooms.elems .orphan with
      manager := manager, clamped := clamped } : World) = w'
    have hmemberAt : w'.memberAt = (u.settle c (w.clientAt c).rooms.elems .orphan).memberAt := by rw [← hw']
    have hroomAt : w'.roomAt = u.roomAt := by rw [← hw']; rfl
    have hclientAt : w'.clientAt = u.clientAt := by rw [← hw']; rfl
    have hfindw : ∀ r, Room.findMemberByClient w' r c = Room.findMemberByClient u r c := by
      intro r
      rw [← hw']
      exact World.findMemberByClient_settle u c c _ .orphan r
    have hmail : ∀ r n, Room.findMemberByClient u r c = some n → w'.orphanMail c r =
        if (w'.memberAt n).hasNick then w'.roomMail r (.packet (.status (PacketStatus.ofMember w' n .orphan))) else [] := by
      intro r n hn
      unfold World.orphanMail
      rw [hfindw, hn]
    have hsent : (w'.emit ((w.clientAt c).rooms.elems.flatMap (w'.orphanMail c))).sent =
        u.sent ++ (w.clientAt c).rooms.elems.flatMap (w'.orphanMail c) := by
      rw [World.emit_sent, ← hw']
      rfl
    have hsr : s ∈ u.rooms := hl.listed_of_joined hsd'
    refine hknown.settled .orphan hlu hsu hsr hmemberAt hroomAt hsent rfl ?_ ?_
    · intro x hx
      obtain ⟨r, hr, hx⟩ := List.mem_flatMap.mp hx
      obtain ⟨n, hn⟩ := Room.findMemberByClient_isSome hl (IterSet.mem_elems.mp hr)
      rw [hmail r n hn] at hx
      refine ⟨r, hr, n, hn, ?_⟩
      split at hx
      · exact (World.mem_roomMail.mp hx).2
      · cases hx
    · intro n hsl hn hnick
      refine List.mem_flatMap.mpr ⟨s, hsl, ?_⟩
      have hnick' : (w'.memberAt n).hasNick := by simpa [Member.hasNick] using hnick
      rw [hmail s n hn, if_pos hnick']
      refine World.mem_roomMail.mpr ⟨?_, rfl⟩
      refine World.reached_congr hroomAt hclientAt ?_ (World.reached hlu hk hsd)
      intro n
      rw [hmemberAt]
      exact World.settle_client u c _ .orphan n

theorem World.mem_homecoming {x : Wire} {n : MemberPtr} (hn : Room.findMemberByClient w s c = some n)
    (h : (k, x) ∈ w.homecoming c s) : (k, x) ∈ w.welcomeMail c s n none true ∨
      (w.memberAt n).hasNick ∧ (k, x) ∈ w.roomMail s (.packet (.status (PacketStatus.ofMember w n .back))) := by
  unfold World.homecoming at h
  rw [hn] at h
  cases List.mem_append.mp h with
  | inl h => exact .inl h
  | inr h =>
    split at h
    · rename_i hnick
      exact .inr ⟨hnick, h⟩
    · cases h

theorem World.settle_room (w : World) (c : ClientPtr) (l : List RoomPtr) (stat : Status) (m : MemberPtr) :
    ((w.settle c l stat).memberAt m).room = (w.memberAt m).room := by
  unfold World.settle
  dsimp only
  split
  · rfl
  · rfl

theorem World.idle_homecoming {name : Bytes} {x : Wire} {n : MemberPtr}
    (hn : Room.findMemberByClient w s c = some n) (hhome : (w.memberAt n).room = s)
    (hother : (w.roomAt s).name ≠ name) (hx : (k, x) ∈ w.homecoming c s) : x.Idle name := by
  cases World.mem_homecoming hn hx with
  | inl hwelcome =>
    cases (World.mem_welcomeMail hwelcome).2 with
    | inl hlist =>
      rw [hlist]
      exact hother
    | inr hidle => exact hidle name
  | inr htold =>
    rw [(World.mem_roomMail.mp htold.2).2]
    rw [← hhome] at hother
    exact hother

theorem World.Knows.welcomed (hs : Seated w) (hk : (w.clientAt c).connection = some k)
    (before : List (ConnectionPtr × Wire)) (n : MemberPtr) :
    (w.emit (before ++ w.welcomeMail c s n none true)).Knows k s := by
  have hafter : Seated (w.emit (before ++ w.welcomeMail c s n none true)) := hs.congr rfl fun _ => rfl
  refine World.Knows.of_list hafter (List.append_assoc w.sent _ _).symm (World.list_mem_welcomeMail hk) ?_
  intro x hx
  exact (World.mem_welcomeMail hx).2.imp_right fun hidle => hidle _

section
variable {t : ClientPtr} {l : List RoomPtr} (hmember : w'.memberAt = (w.settle t l .online).memberAt)
  (hroom : w'.roomAt = w.roomAt)
include hmember hroom

theorem World.findMemberByClient_settled (r : RoomPtr) :
    Room.findMemberByClient w' r t = Room.findMemberByClient w r t := by
  refine Room.findMemberByClient_congr (by rw [hroom]) ?_
  intro m
  rw [hmember]
  exact World.settle_client w t l .online m

variable (hl : w.membership.Linked) (hfind : ∀ r ∈ l, ∃ n, Room.findMemberByClient w r t = some n)
include hl hfind

theorem World.homecoming_elsewhere {x : Wire} {r : RoomPtr} (hr : r ∈ l) (hsr : s ∈ w.rooms) (hrs : r ≠ s)
    (hx : (k, x) ∈ w'.homecoming t r) : x.Idle (w.roomAt s).name := by
  obtain ⟨n, hn⟩ := hfind r hr
  have hnr := (Room.mem_of_findMemberByClient hn).1
  refine World.idle_homecoming ((World.findMemberByClient_settled hmember hroom r).trans hn) ?_ ?_ hx
  · rw [hmember, World.settle_room w t l .online n]
    exact hl.home r n hnr
  · rw [hroom]
    exact fun he => hrs (hl.names r (hl.listed r n hnr) s hsr he)

theorem World.Knows.returned (hseated : Seated w')
    (hk : (w'.clientAt t).connection = some k) (hnodup : l.Nodup) (hsl : s ∈ l)
    (hreached : ∃ n ∈ (w'.roomAt s).members, (w'.clientAt (w'.memberAt n).client).connection = some k) :
    (w'.emit (l.flatMap (w'.homecoming t))).Knows k s := by
  obtain ⟨n, hn⟩ := hfind s hsl
  have hns := (Room.mem_of_findMemberByClient hn).1
  have hself : w'.memberAt n = Member.turned w.now .online (w.memberAt n) := by
    rw [hmember]
    exact if_pos ⟨s, hsl, hn⟩
  obtain ⟨l₁, l₂, hsplit⟩ := List.append_of_mem hsl
  have hsl₂ : s ∉ l₂ := by
    rw [hsplit] at hnodup
    exact (List.nodup_cons.mp (List.nodup_append.mp hnodup).2.1).1
  generalize hback : (if (w'.memberAt n).hasNick then
    w'.roomMail s (.packet (.status (PacketStatus.ofMember w' n .back))) else []) = back
  have hcome : w'.homecoming t s = w'.welcomeMail t s n none true ++ back := by
    unfold World.homecoming
    rw [World.findMemberByClient_settled hmember hroom s, hn, ← hback]
  -- after the list, and before the room is told of the return
  generalize hw₁ : w'.emit (l₁.flatMap (w'.homecoming t) ++ w'.welcomeMail t s n none true) = w₁
  have hfinal : w'.emit (l.flatMap (w'.homecoming t)) = w₁.emit (back ++ l₂.flatMap (w'.homecoming t)) := by
    rw [← hw₁, World.emit_emit, hsplit, List.flatMap_append, List.flatMap_cons, hcome]
    simp only [List.append_assoc]
  have hknown : w₁.Knows k s := hw₁ ▸ World.Knows.welcomed hseated hk _ n
  have hseated₁ : Seated w₁ := hw₁ ▸ hseated.congr rfl fun _ => rfl
  have hroom₁ : w₁.roomAt = w'.roomAt := by rw [← hw₁]; rfl
  have hmember₁ : w₁.memberAt = w'.memberAt := by rw [← hw₁]; rfl
  have hpacket : PacketStatus.ofMember (w₁.emit (back ++ l₂.flatMap (w'.homecoming t))) n .back =
      PacketStatus.ofMember w' n .back := by rw [← hw₁]; rfl
  have hin : n ∈ (w₁.roomAt s).members := by
    rw [hroom₁, hroom]
    exact hns
  have hhome : (w₁.memberAt n).room = s := by
    rw [hmember₁, hself]
    exact hl.home s n hns
  have honline : Status.back.presence = some (w₁.memberAt n).status := by
    rw [hmember₁, hself]
    rfl
  have htold : ∀ x, (k, x) ∈ back ++ l₂.flatMap (w'.homecoming t) → x = .packet (.status
      (PacketStatus.ofMember (w₁.emit (back ++ l₂.flatMap (w'.homecoming t))) n .back)) ∨
        x.Idle (w₁.roomAt s).name := by
    intro x hx
    rw [hpacket, hroom₁, hroom]
    cases List.mem_append.mp hx with
    | inl hx =>
      rw [← hback] at hx
      split at hx
      · exact .inl (World.mem_roomMail.mp hx).2
      · cases hx
    | inr hx =>
      obtain ⟨r, hr, hx⟩ := List.mem_flatMap.mp hx
      have hrl : r ∈ l := by
        rw [hsplit]
        exact List.mem_append_right _ (List.mem_cons_of_mem s hr)
      have hrs : r ≠ s := fun he => hsl₂ (he ▸ hr)
      exact .inr (World.homecoming_elsewhere hmember hroom hl hfind hrl (hl.listed s n hns) hrs hx)
  rw [hfinal]
  refine hknown.changed hseated₁ hin hhome rfl rfl rfl (fun _ _ _ => rfl) rfl (by decide) id (fun _ => .inl honline) htold ?_
  intro hnick
  rw [hpacket]
  refine List.mem_append_left _ ?_
  have hnick' : (w'.memberAt n).hasNick := by
    change (w₁.memberAt n).nick ≠ [] at hnick
    rw [hmember₁] at hnick
    simpa [Member.hasNick] using hnick
  rw [← hback, if_pos hnick']
  exact World.mem_roomMail.mpr ⟨hreached, rfl⟩

theorem World.Knows.rejoined (h : w.Knows k s) (hs : Seated w) (hsr : s ∈ w.rooms) (hclient : w'.clientAt = w.clientAt)
    (hsent : w'.sent = w.sent) (hother : (w.clientAt t).connection ≠ some k)
    (hreached : ∃ n ∈ (w'.roomAt s).members, (w'.clientAt (w'.memberAt n).client).connection = some k) :
    (w'.emit (l.flatMap (w'.homecoming t))).Knows k s := by
  have hfound := World.findMemberByClient_settled hmember hroom
  have hsent' : (w'.emit (l.flatMap (w'.homecoming t))).sent = w.sent ++ l.flatMap (w'.homecoming t) := by
    rw [World.emit_sent, hsent]
  refine h.settled .back hl hs hsr hmember hroom hsent' rfl ?_ ?_
  · intro x hx
    obtain ⟨r, hr, hx⟩ := List.mem_flatMap.mp hx
    obtain ⟨n, hn⟩ := hfind r hr
    refine ⟨r, hr, n, hn, ?_⟩
    cases World.mem_homecoming ((hfound r).trans hn) hx with
    | inl hwelcome =>
      have hkt := (World.mem_welcomeMail hwelcome).1
      rw [hclient] at hkt
      exact absurd hkt hother
    | inr hback => exact (World.mem_roomMail.mp hback.2).2
  · intro n hsl hn hnick
    refine List.mem_flatMap.mpr ⟨s, hsl, ?_⟩
    have hnick' : (w'.memberAt n).hasNick := by simpa [Member.hasNick] using hnick
    unfold World.homecoming
    rw [hfound, hn]
    dsimp only
    rw [if_pos hnick']
    exact List.mem_append_right _ (World.mem_roomMail.mpr ⟨hreached, rfl⟩)

end

section
variable (env) (k₀ : ConnectionPtr) {t : ClientPtr} (hl : w.membership.Linked) (hct : c ≠ t)
include hl hct

theorem Server.reviveClient_settled (hck : (w.clientAt c).connection = some k₀) :
    ∃ w' : World, (Server.reviveClient env w c t).1 = w'.emit ((w.clientAt t).rooms.elems.flatMap (w'.homecoming t)) ∧
      w'.memberAt = (((remove env w c).plug env t k₀).settle t (w.clientAt t).rooms.elems .online).memberAt ∧
      w'.roomAt = ((remove env w c).plug env t k₀).roomAt ∧
      w'.clientAt = ((remove env w c).plug env t k₀).clientAt ∧
      w'.sent = ((remove env w c).plug env t k₀).sent := by
  have hnormal : ∃ manager clamped, remove env w c =
      { w.withdraw c with manager := manager, clamped := clamped } := remove_normal hl
  obtain ⟨manager₁, clamped₁, hremove⟩ := hnormal
  obtain ⟨manager, clamped, closing, he⟩ := Server.reviveClient_normal env hl hct hck
  rw [he, hremove]
  exact ⟨_, rfl, rfl, rfl, rfl, rfl⟩

theorem World.clientAt_plug_remove :
    ((remove env w c).plug env t k₀).clientAt t = { w.clientAt t with
      connection := some k₀, lastClientIP := env.realIp k₀, lastPacketTime := w.now } ∧
    (((remove env w c).plug env t k₀).clientAt c).connection = none ∧
    ∀ d, d ≠ c → d ≠ t → ((remove env w c).plug env t k₀).clientAt d = w.clientAt d ∧
      (remove env w c).clientAt d = w.clientAt d := by
  have hnormal : ∃ manager clamped, remove env w c =
      { w.withdraw c with manager := manager, clamped := clamped } := remove_normal hl
  obtain ⟨manager, clamped, hremove⟩ := hnormal
  rw [hremove]
  refine ⟨?_, ?_, fun d hdc hdt => ⟨?_, ?_⟩⟩
  · simp [World.plug, World.withdraw, Ne.symm hct]
  · simp [World.plug, World.withdraw, hct]
  · simp [World.plug, World.withdraw, hdc, hdt]
  · simp [World.withdraw, hdc]

end

theorem Informed.revive (h : Informed w) (hw : WF env w) (hs : Seated w) {t : ClientPtr} {k₀ : ConnectionPtr}
    (hc : c ∈ w.manager.clients) (hct : c ≠ t) (hck : (w.clientAt c).connection = some k₀) :
    Informed (Server.reviveClient env w c t).1 := by
  have hl := hw.linked
  -- the other client is gone, and the target has its connection
  have hgone : Informed (remove env w c) := h.drop hl hs c
  obtain ⟨hut, huc, huother⟩ := World.clientAt_plug_remove env k₀ hl hct
  obtain ⟨w', he, hmemberAt, hroomAt, hclientAt, hsent⟩ := Server.reviveClient_settled env k₀ hl hct hck
  rw [he]
  generalize hu : (remove env w c).plug env t k₀ = u at *
  have hlu : u.membership.Linked := by
    have hm : u.membership = (remove env w c).membership := hu ▸ membership_modifyClient _ t _ rfl
    exact hm ▸ (hw.drop hc).linked
  have hsgone : Seated (remove env w c) := hs.thin (.remove w c)
  have hsu : Seated u := hu ▸ hsgone.congr rfl fun _ => rfl
  have hseated : Seated w' := by
    refine hsu.shift (fun r n hn => hroomAt ▸ hn) fun r n hn => ?_
    rw [hmemberAt]
    unfold World.settle
    dsimp only
    split
    · exact ⟨rfl, rfl, .inr (.inl rfl)⟩
    · exact ⟨rfl, rfl, .inl rfl⟩
  have hrooms : (u.clientAt t).rooms = (w.clientAt t).rooms := by rw [hut]
  have hfind : ∀ r ∈ (w.clientAt t).rooms.elems, ∃ n, Room.findMemberByClient u r t = some n := by
    intro r hr
    refine Room.findMemberByClient_isSome hlu ?_
    rw [hrooms]
    exact IterSet.mem_elems.mp hr
  intro d k s hk hsd
  have hk' : (u.clientAt d).connection = some k := by
    rw [← hclientAt]
    exact hk
  have hsd' : s ∈ (u.clientAt d).rooms := by
    rw [← hclientAt]
    exact hsd
  have hreached := World.reached_congr hroomAt hclientAt (fun n => by
    rw [hmemberAt]
    exact World.settle_client u t _ .online n) (World.reached hlu hk' hsd')
  by_cases hdt : d = t
  · subst hdt
    refine World.Knows.returned hmemberAt hroomAt hlu hfind hseated hk (w.clientAt d).rooms.nodup ?_ hreached
    rw [← hrooms]
    exact IterSet.mem_elems.mpr hsd'
  · have hdc : d ≠ c := by
      rintro rfl
      rw [huc] at hk'
      cases hk'
    have hsr : s ∈ u.rooms := hlu.listed_of_joined hsd'
    obtain ⟨hsame, hleft⟩ := huother d hdc hdt
    rw [hsame] at hk' hsd'
    have hne : (u.clientAt t).connection ≠ some k := by
      intro htk
      rw [hut] at htk
      have hkk : k₀ = k := Option.some.inj htk
      exact hdc (World.holder_unique hw hc hck (hkk ▸ hk') hsd')
    have hknown : u.Knows k s := by
      rw [← hu]
      refine hgone d k s ?_ ?_
      · rw [hleft]
        exact hk'
      · rw [hleft]
        exact hsd'
    exact hknown.rejoined hmemberAt hroomAt hlu hfind hsu hsr hclientAt hsent hne hreached

theorem Informed.move (h : Informed w) (hw : WF env w) (hs : Seated w) (hm : Move env c w₀ S w w') : Informed w' := by
  have hl := hw.linked
  cases hm with
  | quiet hq => exact h.quiet hw hs hq
  | hang => exact h
  | issue r id =>
    have hnothing : ∀ x ∈ ([] : List (ConnectionPtr × Wire)), ∀ name, x.2.Idle name := by simp
    refine h.same hl (fun _ _ hk => hk) (fun _ _ hs => hs) ?_ ?_ (List.append_nil _).symm hnothing
    · intro s _
      by_cases hne : s = r
      · subst hne
        simp [World.issue]
      · simp [World.issue, hne]
    · intro s n hn
      exact Function.update_of_ne (hl.ne_of_mem w.not_issued n hn) _ _
  | enter r id _ _ _ hc hr hcr hid => exact h.enter hw hs hc hr hcr hid
  | leave r _ hr => exact h.leave hl hs hr
  | kick r m _ hm => exact h.kick hl hs hm
  | banKick r m nick _ hm =>
    have hf : Frame w (w.modifyRoom r fun rm => { rm with bannedNicks := rm.bannedNicks.insert nick }) :=
      Frame.modifyRoom w r _ rfl rfl
    have hroom : ∀ s, ((w.modifyRoom r fun rm => { rm with bannedNicks := rm.bannedNicks.insert nick }).roomAt s).members =
        (w.roomAt s).members := by
      intro s
      by_cases hne : s = r
      · subst hne
        simp
      · simp [hne]
    have hbanned := h.frame hl hf hroom rfl (List.append_nil _).symm (by simp)
    refine hbanned.kick (hf.membership ▸ hl) (hs.congr rfl hroom) ?_
    rw [hroom]
    exact List.mem_of_find?_eq_some hm
  | create name _ _ hname =>
    have hold : ∀ s ∈ w.rooms, s ≠ ⟨w.nextRoom⟩ := by
      intro s hs he
      subst he
      exact Nat.lt_irrefl _ (hl.built _ hs)
    have hnothing : ∀ x ∈ ([] : List (ConnectionPtr × Wire)), ∀ name, x.2.Idle name := by simp
    refine h.same hl (fun _ _ hk => hk) (fun _ _ hs => hs) ?_ (fun _ _ _ => rfl) (List.append_nil _).symm hnothing
    intro s hs
    simp [World.found, hold s hs]
  | raze r name _ hr => exact h.raze hl hr
  | revive t k p _ hc _ hct hk hp =>
    have hplain : ∀ x ∈ [(k, Wire.packet p)], ∀ name, x.2.Idle name := by
      intro x hx
      rw [List.mem_singleton.mp hx]
      exact hp.idle
    have hw' : WF env (w.emit [(k, .packet p)]) := hw.frame (Frame.emit w _)
    have hs' : Seated (w.emit [(k, .packet p)]) := hs.congr rfl fun _ => rfl
    exact (h.emit hl hplain).revive hw' hs' hc hct hk

theorem Informed.connect (h : Informed w) (k : ConnectionPtr) (draws : List Token) : Informed (connect env w k draws) := by
  unfold ClientsManager.connect
  split
  · exact h
  · dsimp only
    intro d k' s hk hsd
    by_cases hd : d = ⟨w.nextClient⟩
    · subst hd
      simp [Client.setConnection] at hsd
    · simp [Client.setConnection, hd] at hk hsd
      exact h d k' s hk hsd

theorem Informed.routine (h : Informed w) (hw : WF env w) (hs : Seated w) (hr : Routine env w w') : Informed w' := by
  cases hr with
  | clock => exact h
  | opening k draws =>
    have harrival : Informed (w.arrival env k) := h
    rcases Server.onOpen_cases env hw k draws with ⟨-, he⟩ | ⟨-, ⟨-, he⟩ | ⟨c, -, -, -, -, he⟩⟩
    · rw [he]
      exact harrival
    · rw [he]
      exact harrival.connect k draws
    · rw [he]
      have hseated : Seated (w.arrival env k) := hs.congr rfl fun _ => rfl
      have hlinked : (w.arrival env k).membership.Linked := hw.linked
      exact (harrival.drop hlinked hseated c).connect k draws
  | ping c =>
    rw [Client.sendPacket_eq]
    exact h.emit hw.linked (idle_mail fun _ => trivial)
  | mark => exact h
  | orphan c hc => exact h.orphan hw hs hc
  | drop c => exact h.drop hw.linked hs c

theorem Informed.chore (h : Informed w) (hw : WF env w) (hs : Seated w) (ht : Chore env w w') : Informed w' := by
  cases ht with
  | routine hr => exact h.routine hw hs hr
  | save => exact h
  | restart =>
    intro d k s _ hsd
    have hl : w.restart.membership.Linked := hw.restart.linked
    obtain ⟨m, hm, -⟩ := (hl.joinedIff d s).mp hsd
    have hnone : m ∈ (∅ : IterSet MemberPtr) := World.restart_members hw s ▸ hm
    exact absurd hnone (IterSet.not_mem_empty m)

end

/-- In every run what a client makes of the packets it got about one of its rooms, the entries without a
name apart, is the room. -/
theorem run_informed (env : Env) (es : List Event) :
    let w := run env es
    ∀ c k r, (w.clientAt c).connection = some k → r ∈ (w.clientAt c).rooms →
      ∀ id e, (w.viewOf k (w.roomAt r).name).named id = some e ↔
        ∃ m ∈ (w.roomAt r).members, (w.memberAt m).nick ≠ [] ∧ (w.memberAt m).id = id ∧
          e = ⟨(w.memberAt m).nick, (w.memberAt m).girl, (w.memberAt m).color, some (w.memberAt m).status⟩ := by
  have hinformed : Seated (run env es) ∧ Informed (run env es) := by
    refine run_invariant (P := fun w => Seated w ∧ Informed w) ?_ ?_ ?_ es
    · refine ⟨Seated.init env, ?_⟩
      intro c k r hk
      cases hk
    · intro c w₀ w w' hw h hm
      exact ⟨h.1.move hw hm, h.2.move hw h.1 hm⟩
    · intro w w' hw h hc
      exact ⟨h.1.chore hw hc, h.2.chore hw h.1 hc⟩
  intro w c k r hk hr id e
  have hknown : w.Knows k r := hinformed.2 c k r hk hr
  rw [hknown id e]
  refine exists_congr fun m => and_congr_right fun _ => and_congr_right fun _ => and_congr_right fun _ => ?_
  exact eq_comm

theorem run_informed_nick :
    let w := run Sample.surroundings Sample.room
    (w.viewOf ⟨1⟩ (w.roomAt ⟨0⟩).name).named 2 = some ⟨utf8 "foo", false, utf8 "gray", some .online⟩ := by
  intro w
  have hseat : (w.clientAt ⟨0⟩).connection = some ⟨1⟩ ∧ ⟨0⟩ ∈ (w.clientAt ⟨0⟩).rooms.elems ∧
      (⟨1⟩ : MemberPtr) ∈ (w.roomAt ⟨0⟩).members.elems ∧ (w.memberAt ⟨1⟩).nick ≠ [] ∧ (w.memberAt ⟨1⟩).id = 2 ∧
      (⟨utf8 "foo", false, utf8 "gray", some .online⟩ : Entry) = ⟨(w.memberAt ⟨1⟩).nick, (w.memberAt ⟨1⟩).girl,
        (w.memberAt ⟨1⟩).color, some (w.memberAt ⟨1⟩).status⟩ := by decide +kernel
  obtain ⟨hk, hr, hm, hshown⟩ := hseat
  exact (run_informed Sample.surroundings Sample.room ⟨0⟩ ⟨1⟩ ⟨0⟩ hk (IterSet.mem_elems.mp hr) 2 _).mpr
    ⟨⟨1⟩, IterSet.mem_elems.mp hm, hshown⟩

def Sample.nameless : List Event := room.take 6 ++ [sends 6 2 (line (utf8 "/gender f"))]

/-- The answer puts the guest into its own view, without a name. -/
theorem run_informed_nameless :
    ¬ ∀ (env : Env) (es : List Event),
      let w := run env es
      ∀ c k r, (w.clientAt c).connection = some k → r ∈ (w.clientAt c).rooms →
        ∀ id e, w.viewOf k (w.roomAt r).name id = some e ↔
          ∃ m ∈ (w.roomAt r).members, (w.memberAt m).nick ≠ [] ∧ (w.memberAt m).id = id ∧
            e = ⟨(w.memberAt m).nick, (w.memberAt m).girl, (w.memberAt m).color, some (w.memberAt m).status⟩ := by
  intro h
  let w := run Sample.surroundings Sample.nameless
  have hseat : (w.clientAt ⟨1⟩).connection = some ⟨2⟩ ∧ ⟨0⟩ ∈ (w.clientAt ⟨1⟩).rooms.elems ∧
      w.viewOf ⟨2⟩ (w.roomAt ⟨0⟩).name 2 = some ⟨[], true, utf8 "gray", none⟩ := by decide +kernel
  obtain ⟨hk, hr, hview⟩ := hseat
  obtain ⟨m, -, hnick, -, he⟩ :=
    (h Sample.surroundings Sample.nameless ⟨1⟩ ⟨2⟩ ⟨0⟩ hk (IterSet.mem_elems.mp hr) 2 _).mp hview
  exact hnick (congrArg Entry.name he).symm

end WsChat
