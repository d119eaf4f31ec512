import WsChat.Feats
import WsChat.Feeds

/-! Where packets go: what is said or seen in a room goes to the clients in it, an identity to its owner, and
nothing to a connection without a client. -/
namespace WsChat
open Lib Relation ClientsManager

/-- A registered client has the connection, or it was not opened yet. -/
def World.Reaches (w : World) (k : ConnectionPtr) : Prop :=
  k ∉ w.opened ∨ ∃ d ∈ w.manager.clients, (w.clientAt d).connection = some k

def World.HearsNamed (w : World) (k : ConnectionPtr) (name : Bytes) : Prop :=
  ∃ r ∈ w.rooms, (w.roomAt r).name = name ∧ w.Hears k r

def World.Confided (w : World) (k : ConnectionPtr) : Wire → Prop
  | .raw _ | .packet (.auth _) => False
  | .packet (.message p) => w.HearsNamed k p.target
  | .packet (.onlineList p) => w.HearsNamed k p.target
  | .packet (.status p) => w.HearsNamed k p.target
  | .packet (.join p) => w.HearsNamed k p.target
  | .packet _ => True

def Registry.Held (g : Registry) : Prop := ∀ d k, g.connection d = some k → d ∈ g.clients

structure Confines (w w' : World) : Prop where
  sent : ∃ out, w'.sent = w.sent ++ out ∧ ∀ x ∈ out, w.Reaches x.1 ∧ w.Confided x.1 x.2
  hears : ∀ k r, w'.Hears k r → w.Hears k r
  reaches : ∀ k, w'.Reaches k → w.Reaches k
  names : ∀ r ∈ w.membership.built, r ∈ w'.membership.built ∧ (w'.roomAt r).name = (w.roomAt r).name

/-- What may be sent on a connection between two states. An identity is that of the client that has the
connection, history is that of a room its client comes to, and what else is told of a room goes to those in it. -/
def World.Entitled (w w' : World) (k : ConnectionPtr) : Wire → Prop
  | .raw line => ∃ r ∈ w.rooms, line ∈ (w.roomAt r).history ∧ w'.Hears k r
  | .packet (.auth p) => ∃ d ∈ w'.manager.clients, (w'.clientAt d).connection = some k ∧
      p.userId = (w'.clientAt d).uid ∧ p.name = (w'.clientAt d).name ∧ p.token = (w'.clientAt d).token
  | .packet (.message p) => w.HearsNamed k p.target ∨ w'.HearsNamed k p.target
  | .packet (.onlineList p) => w.HearsNamed k p.target ∨ w'.HearsNamed k p.target
  | .packet (.status p) => w.HearsNamed k p.target ∨ w'.HearsNamed k p.target
  | .packet (.join p) => w.HearsNamed k p.target ∨ w'.HearsNamed k p.target
  | .packet _ => True

section
variable {env : Env} {w w' w'' : World} {c d t : ClientPtr} {k : ConnectionPtr} {r s : RoomPtr} {m : MemberPtr}
  {out out' : List (ConnectionPtr × Wire)} {x : Wire} {name : Bytes}

theorem World.Reaches.of_connection (hc : c ∈ w.manager.clients) (hk : (w.clientAt c).connection = some k) :
    w.Reaches k := .inr ⟨c, hc, hk⟩

theorem World.Hears.of_member (hl : w.membership.Linked) (hm : m ∈ (w.roomAt r).members)
    (hk : (w.clientAt (w.memberAt m).client).connection = some k) : w.Hears k r :=
  ⟨_, hk, (hl.joinedIff _ r).mpr ⟨m, hm, rfl⟩⟩

theorem World.Hears.named (hl : w.membership.Linked) (h : w.Hears k r) : w.HearsNamed k (w.roomAt r).name :=
  ⟨r, h.listed hl, rfl, h⟩

theorem World.Hears.reaches (hl : w.membership.Linked) (h : w.Hears k r) : w.Reaches k := by
  obtain ⟨d, hk, hr⟩ := h
  exact .inr ⟨d, hl.registered_of_joined hr, hk⟩

theorem confided_mail (hc : c ∈ w.manager.clients)
    (hx : ∀ k, (w.clientAt c).connection = some k → w.Confided k x) :
    ∀ y ∈ w.mail c x, w.Reaches y.1 ∧ w.Confided y.1 y.2 := by
  intro y hy
  obtain ⟨hk, he⟩ := World.mem_mail.mp hy
  rw [he]
  exact ⟨.of_connection hc hk, hx y.1 hk⟩

theorem confided_roomMail (hl : w.membership.Linked) (hx : ∀ k, w.HearsNamed k (w.roomAt r).name → w.Confided k x) :
    ∀ y ∈ w.roomMail r x, w.Reaches y.1 ∧ w.Confided y.1 y.2 := by
  intro y hy
  obtain ⟨⟨m, hm, hk⟩, he⟩ := World.mem_roomMail.mp hy
  have hears : w.Hears y.1 r := .of_member hl hm hk
  rw [he]
  exact ⟨hears.reaches hl, hx y.1 (hears.named hl)⟩

theorem confided_append (h : ∀ y ∈ out, w.Reaches y.1 ∧ w.Confided y.1 y.2)
    (h' : ∀ y ∈ out', w.Reaches y.1 ∧ w.Confided y.1 y.2) : ∀ y ∈ out ++ out', w.Reaches y.1 ∧ w.Confided y.1 y.2 := by
  intro y hy
  cases List.mem_append.mp hy with
  | inl hy => exact h y hy
  | inr hy => exact h' y hy

theorem Packet.Notice.confided {p : Packet} (hp : p.Notice) : w.Confided k (.packet p) := by
  cases p with
  | message | onlineList | auth | status | join => exact hp.elim
  | _ => trivial

theorem confided_status {p : PacketStatus} (hl : w.membership.Linked) (hm : m ∈ (w.roomAt r).members)
    (hp : p.target = (w.roomAt (w.memberAt m).room).name) :
    ∀ y ∈ w.roomMail r (.packet (.status p)), w.Reaches y.1 ∧ w.Confided y.1 y.2 := by
  have hhome : (w.memberAt m).room = r := hl.home r m hm
  refine confided_roomMail hl fun k hk => ?_
  rw [← hhome, ← hp] at hk
  exact hk

theorem confided_offlineMail (hl : w.membership.Linked) (hm : m ∈ (w.roomAt r).members) :
    ∀ y ∈ w.offlineMail r m, w.Reaches y.1 ∧ w.Confided y.1 y.2 := by
  unfold World.offlineMail
  split
  · exact confided_status hl hm rfl
  · simp

theorem confided_orphanMail (hl : w.membership.Linked) :
    ∀ y ∈ w.orphanMail c r, w.Reaches y.1 ∧ w.Confided y.1 y.2 := by
  intro y hy
  unfold World.orphanMail at hy
  cases hfind : Room.findMemberByClient w r c with
  | none =>
    rw [hfind] at hy
    cases hy
  | some m =>
    rw [hfind] at hy
    dsimp only at hy
    split at hy
    · exact confided_status hl (Room.mem_of_findMemberByClient hfind).1 rfl y hy
    · cases hy

theorem World.HearsNamed.back (hl : w.membership.Linked) (h : Confines w w') (hk : w'.HearsNamed k name) :
    w.HearsNamed k name := by
  obtain ⟨r, -, hname, hears⟩ := hk
  have hears := h.hears k r hears
  have hr := hears.listed hl
  rw [← hname, (h.names r (hl.built r hr)).2]
  exact hears.named hl

theorem Confines.refl (w : World) : Confines w w :=
  ⟨⟨[], by simp, by simp⟩, fun _ _ h => h, fun _ h => h, fun _ h => ⟨h, rfl⟩⟩

theorem Confines.trans (hl : w.membership.Linked) (h : Confines w w') (h' : Confines w' w'') : Confines w w'' where
  sent := by
    obtain ⟨out, hout, hall⟩ := h.sent
    obtain ⟨out', hout', hall'⟩ := h'.sent
    refine ⟨out ++ out', by rw [hout', hout, List.append_assoc], confided_append hall ?_⟩
    intro y hy
    obtain ⟨hreach, hconf⟩ := hall' y hy
    refine ⟨h.reaches _ hreach, ?_⟩
    obtain ⟨k, x⟩ := y
    cases x with
    | raw => exact hconf
    | packet p =>
      cases p with
      | message p | onlineList p | status p | join p => exact World.HearsNamed.back hl h hconf
      | _ => exact hconf
  hears := fun k r hk => h.hears k r (h'.hears k r hk)
  reaches := fun k hk => h.reaches k (h'.reaches k hk)
  names := by
    intro r hr
    obtain ⟨hr', hname⟩ := h.names r hr
    obtain ⟨hr'', hname'⟩ := h'.names r hr'
    exact ⟨hr'', hname'.trans hname⟩

theorem Confines.of_evolves {ms : Membership ClientPtr RoomPtr MemberPtr Bytes} (he : Evolves w w.registry ms w')
    (hjoined : ∀ d, ms.joined d ⊆ w.membership.joined d)
    (hnames : ∀ r ∈ w.membership.built, r ∈ ms.built ∧ ms.name r = (w.roomAt r).name)
    (hsent : w'.sent = w.sent ++ out) (hout : ∀ y ∈ out, w.Reaches y.1 ∧ w.Confided y.1 y.2) : Confines w w' where
  sent := ⟨out, hsent, hout⟩
  hears := by
    intro k r hk
    obtain ⟨d, hdk, hr⟩ := he.hears hk
    exact ⟨d, hdk, hjoined d hr⟩
  reaches := by
    intro k hk
    change k ∉ w'.registry.opened ∨ ∃ d ∈ w'.registry.clients, w'.registry.connection d = some k at hk
    rw [he.registry] at hk
    exact hk
  names := by
    intro r hr
    rw [he.membership]
    obtain ⟨hbuilt, hname⟩ := hnames r hr
    refine ⟨hbuilt, ?_⟩
    rw [← hname, ← he.membership]
    rfl

theorem Confines.of_frame (hf : Frame w w') (hsent : w'.sent = w.sent ++ out)
    (hout : ∀ y ∈ out, w.Reaches y.1 ∧ w.Confided y.1 y.2) : Confines w w' :=
  .of_evolves hf (fun _ => subset_refl _) (fun _ hr => ⟨hr, rfl⟩) hsent hout

theorem confided_nothing : ∀ y ∈ ([] : List (ConnectionPtr × Wire)), w.Reaches y.1 ∧ w.Confided y.1 y.2 := by simp

theorem confided_announcement {stat : Status} (hl : w.membership.Linked) (hm : m ∈ (w.roomAt r).members) :
    ∀ y ∈ w.announcement m stat, w.Reaches y.1 ∧ w.Confided y.1 y.2 := by
  have hhome : (w.memberAt m).room = r := hl.home r m hm
  have hc : (w.memberAt m).client ∈ w.manager.clients := hl.registered r m hm
  unfold World.announcement
  dsimp only
  split
  · rw [hhome]
    exact confided_status hl hm rfl
  · refine confided_mail hc fun k hk => ?_
    have hears : w.Hears k (w.memberAt m).room := by
      rw [hhome]
      exact .of_member hl hm hk
    exact hears.named hl

theorem Confines.retouch (hl : w.membership.Linked) (hf : Frame w w') (hsent : w'.sent = w.sent)
    (hout : ∀ y ∈ out, w'.Reaches y.1 ∧ w'.Confided y.1 y.2) : Confines w (w'.emit out) := by
  have hsilent : w'.sent = w.sent ++ [] := by rw [hsent, List.append_nil]
  exact (Confines.of_frame hf hsilent confided_nothing).trans hl (.of_frame (Frame.emit w' out) rfl hout)

theorem Member.nickPacket_target (w : World) (m : MemberPtr) (oldnick : Bytes) :
    (Member.nickPacket w m oldnick).target = (w.roomAt (w.memberAt m).room).name := by
  unfold Member.nickPacket
  dsimp only
  split
  · rfl
  · split <;> rfl

theorem Still.confines (hw : WF env w) (hc : c ∈ w.manager.clients) (hs : Still env c w w') : Confines w w' := by
  have hf := hs.frame
  have hl := hw.linked
  cases hs with
  | answer p hp => exact .of_frame hf rfl (confided_mail hc fun _ _ => hp.confided)
  | list r sequenceId hr =>
    refine .of_frame hf rfl (confided_mail hc fun k hk => ?_)
    have hears : w.Hears k r := ⟨c, hk, hr⟩
    exact hears.named hl
  | touch | ban | appoint | dress => exact .of_frame hf (List.append_nil _).symm confided_nothing
  | say r m style text hm =>
    rw [Room.say_eq] at hf ⊢
    refine .of_frame hf rfl (confided_roomMail hl fun k hk => ?_)
    rw [← hm.room] at hk
    exact hk
  | whisper r m m2 text hm hm2 =>
    have hself : ∀ n ∈ (w.roomAt r).members, ∀ y ∈ w.mail (w.memberAt n).client
        (.packet (.message (PacketMessage.ofMembers w m m2 text))), w.Reaches y.1 ∧ w.Confided y.1 y.2 := by
      intro n hn
      refine confided_mail (hl.registered r n hn) fun k hk => ?_
      have hears : w.Hears k (w.memberAt m).room := by
        rw [hm.room]
        exact .of_member hl hn hk
      exact hears.named hl
    exact .of_frame hf rfl (confided_append (hself m hm.mem) (hself m2 hm2))
  | presence r m stat hm =>
    have hset : Frame w (Member.setStatus w m (if stat = .back then .online else .away)) :=
      Frame.modifyMember w m _ rfl rfl
    refine .retouch hl hset rfl (confided_status ?_ (hm.frame hset).mem rfl)
    exact (hw.frame hset).linked
  | typing r m stat hm => exact .of_frame hf rfl (confided_status hl hm.mem rfl)
  | restyle r m girl color stat hm =>
    have hset : Frame w (w.modifyMember m fun mem => { mem with girl := girl, color := color }) :=
      Frame.modifyMember w m _ rfl rfl
    rw [Member.announce_eq]
    exact .retouch hl hset rfl (confided_announcement (hw.frame hset).linked hm.mem)
  | rename r m nick hm =>
    have hset : Frame w (w.modifyMember m fun mem => { mem with nick := nick }) := Frame.modifyMember w m _ rfl rfl
    refine .retouch hl hset rfl (confided_status ?_ (hm.frame hset).mem (Member.nickPacket_target _ _ _))
    exact (hw.frame hset).linked

theorem World.expel_joined (w : World) (r : RoomPtr) (m : MemberPtr) (d : ClientPtr) :
    (w.membership.expel r m).joined d ⊆ w.membership.joined d := by
  unfold Membership.expel
  dsimp only
  by_cases hd : d = w.membership.who m
  · subst hd
    rw [Function.update_self]
    exact Set.sdiff_subset
  · rw [Function.update_of_ne hd]

theorem Confines.expel (he : Evolves w w.registry (w.membership.expel r m) w') (hsent : w'.sent = w.sent ++ out)
    (hout : ∀ y ∈ out, w.Reaches y.1 ∧ w.Confided y.1 y.2) : Confines w w' :=
  .of_evolves he (w.expel_joined r m) (fun _ hr => ⟨hr, rfl⟩) hsent hout

theorem Confines.leave (hl : w.membership.Linked) (hr : r ∈ (w.clientAt c).rooms) :
    Confines w (Client.leaveRoom env w c r) := by
  obtain ⟨m, hfind⟩ := Room.findMemberByClient_isSome hl hr
  obtain ⟨n, hn, hnc, he⟩ := Client.leaveRoom_evolves env hl hr
  have hsent : (Client.leaveRoom env w c r).sent = w.sent ++ w.offlineMail r m := by
    rw [Client.leaveRoom_eq hr hfind]
    rfl
  exact .expel he hsent (confided_offlineMail hl (Room.mem_of_findMemberByClient hfind).1)

theorem Confines.kick (hl : w.membership.Linked) (hm : m ∈ (w.roomAt r).members) :
    Confines w (Room.kickMember env w r m) := by
  have hsent : (Room.kickMember env w r m).sent = w.sent ++ (w.offlineMail r m ++
      w.mail (w.memberAt m).client (.packet (.leave { target := (w.roomAt r).name }))) := by
    rw [Room.kickMember_eq]
    rfl
  refine .expel Room.kickMember_evolves hsent (confided_append (confided_offlineMail hl hm) ?_)
  exact confided_mail (hl.registered r m hm) fun _ _ => trivial

def World.RoomConnection (w : World) (r : RoomPtr) (k : ConnectionPtr) : Prop :=
  ∃ m ∈ (w.roomAt r).members, (w.clientAt (w.memberAt m).client).connection = some k

theorem Client.leaveRoom_told (env : Env) (w : World) (c : ClientPtr) (r : RoomPtr) :
    let w' := Client.leaveRoom env w c r
    (∀ d, (w'.clientAt d).connection = (w.clientAt d).connection) ∧ w'.memberAt = w.memberAt ∧
      (∀ m ∈ (w'.roomAt r).members, m ∈ (w.roomAt r).members) ∧
      ∃ out, w'.sent = w.sent ++ out ∧ ∀ y ∈ out, w.RoomConnection r y.1 := by
  have hsilent : ∃ out, w.sent = w.sent ++ out ∧ ∀ y ∈ out, w.RoomConnection r y.1 := ⟨[], by simp, by simp⟩
  have hclient : ∀ d, ((w.modifyClient c fun cli => { cli with rooms := cli.rooms.erase r }).clientAt d).connection =
      (w.clientAt d).connection := by
    intro d
    by_cases hd : d = c
    · subst hd
      simp
    · simp [hd]
  by_cases hr : r ∈ (w.clientAt c).rooms
  · cases hfind : Room.findMemberByClient w r c with
    | none =>
      have he : Client.leaveRoom env w c r =
          (w.modifyClient c fun cli => { cli with rooms := cli.rooms.erase r }).deref := by
        unfold Client.leaveRoom
        rw [if_pos hr]
        exact Room.removeMember_none hfind
      rw [he]
      exact ⟨hclient, rfl, fun _ hm => hm, hsilent⟩
    | some m =>
      rw [Client.leaveRoom_eq hr hfind]
      refine ⟨hclient, rfl, fun n hn => ?_, w.offlineMail r m, rfl, fun y hy => ?_⟩
      · simp only [World.modifyRoom_roomAt, Function.update_self, IterSet.mem_erase] at hn
        exact hn.2
      · unfold World.offlineMail at hy
        split at hy
        · exact (World.mem_roomMail.mp hy).1
        · cases hy
  · have he : Client.leaveRoom env w c r = w := if_neg hr
    rw [he]
    exact ⟨fun _ => rfl, rfl, fun _ hm => hm, hsilent⟩

theorem foldl_onDestroyMember_told {K : ConnectionPtr → Prop} {l : List MemberPtr}
    (hl : ∀ m ∈ l, ∀ k, (w.clientAt (w.memberAt m).client).connection = some k → K k)
    (hroom : ∀ k, w.RoomConnection r k → K k) :
    ∃ out, (l.foldl (Room.onDestroyMember env r) w).sent = w.sent ++ out ∧ ∀ y ∈ out, K y.1 := by
  induction l generalizing w with
  | nil => exact ⟨[], by simp, by simp⟩
  | cons m l ih =>
    obtain ⟨hconn, hmember, hshrink, out, hsent, hout⟩ := Client.leaveRoom_told env w (w.memberAt m).client r
    have hstep : Room.onDestroyMember env r w m = (Client.leaveRoom env w (w.memberAt m).client r).emit
        ((Client.leaveRoom env w (w.memberAt m).client r).mail (w.memberAt m).client
          (.packet (.leave { target := ((Client.leaveRoom env w (w.memberAt m).client r).roomAt r).name }))) := by
      unfold Room.onDestroyMember
      rw [Member.sendPacket_eq, hmember]
    rw [List.foldl_cons, hstep]
    generalize Client.leaveRoom env w (w.memberAt m).client r = w₁ at *
    obtain ⟨out', hsent', hout'⟩ := ih
      (w := w₁.emit (w₁.mail (w.memberAt m).client (.packet (.leave { target := (w₁.roomAt r).name }))))
      (by
        intro n hn k hk
        refine hl n (List.mem_cons_of_mem m hn) k ?_
        rw [← hconn, ← hmember]
        exact hk)
      (by
        intro k hk
        obtain ⟨n, hn, hnk⟩ := hk
        refine hroom k ⟨n, hshrink n hn, ?_⟩
        rw [← hconn, ← hmember]
        exact hnk)
    refine ⟨out ++ w₁.mail (w.memberAt m).client (.packet (.leave { target := (w₁.roomAt r).name })) ++ out', ?_, ?_⟩
    · rw [hsent', World.emit_sent, hsent, List.append_assoc, List.append_assoc, List.append_assoc]
    · intro y hy
      rw [List.mem_append, List.mem_append] at hy
      obtain (hy | hy) | hy := hy
      · exact hroom _ (hout y hy)
      · refine hl m List.mem_cons_self y.1 ?_
        rw [← hconn]
        exact (World.mem_mail.mp hy).1
      · exact hout' y hy

theorem Confines.raze (hl : w.membership.Linked) (hr : Server.getRoomByName w name = some r) :
    Confines w (Server.removeRoom env w name) := by
  obtain ⟨info, out, hfarewell, he⟩ := Server.removeRoom_eq env hl hr
  have hsent : (Server.removeRoom env w name).sent = w.sent ++ out := by rw [he]
  have htold : ∃ out, (Server.removeRoom env w name).sent = w.sent ++ out ∧ ∀ y ∈ out, w.RoomConnection r y.1 := by
    unfold Server.removeRoom Room.onDestroy
    rw [hr]
    exact foldl_onDestroyMember_told (w := { w with rooms := w.rooms.erase r }) (l := (w.roomAt r).members.elems)
      (fun m hm k hk => ⟨m, IterSet.mem_elems.mp hm, hk⟩) fun k hk => hk
  obtain ⟨out', hsent', hout'⟩ := htold
  have hsame : out' = out := List.append_cancel_left (hsent'.symm.trans hsent)
  subst hsame
  refine .of_evolves (Server.removeRoom_evolves hl hr) (fun d => Set.sdiff_subset) (fun _ hr => ⟨hr, rfl⟩) hsent ?_
  intro y hy
  obtain ⟨m, hm, hk⟩ := hout' y hy
  have hears : w.Hears y.1 r := .of_member hl hm hk
  refine ⟨hears.reaches hl, ?_⟩
  cases hfarewell y hy with
  | inl hgone =>
    obtain ⟨n, hn, hyn⟩ := hgone
    rw [hyn]
    have hhome : (w.memberAt n).room = r := hl.home r n hn
    rw [← hhome] at hears
    exact hears.named hl
  | inr hleave =>
    rw [hleave]
    trivial

theorem Feat.confines (hw : WF env w) (hc : c ∈ w.manager.clients) (hf : Feat env c w w') : Confines w w' := by
  have hl := hw.linked
  cases hf with
  | still hs => exact hs.confines hw hc
  | hang => exact ⟨(Confines.refl w).sent, fun _ _ h => h, fun _ h => h, fun _ h => ⟨h, rfl⟩⟩
  | refuse r id =>
    exact .of_evolves (issue_evolves w c r id) (fun _ => subset_refl _) (fun _ hr => ⟨hr, rfl⟩)
      (List.append_nil _).symm confided_nothing
  | leave r hr => exact .leave hl hr
  | kick r m m2 _ _ hm2 => exact .kick hl hm2
  | create name =>
    have hev := (found_evolves w name).then_frame (Frame.modifyRoom (w.found name) ⟨w.nextRoom⟩
      (fun rm => { rm with ownerId := (w.clientAt c).uid }) rfl rfl)
    refine .of_evolves hev (fun _ => subset_refl _) (fun s hs => ?_) (List.append_nil _).symm confided_nothing
    have hne : s ≠ ⟨w.nextRoom⟩ := by
      rintro rfl
      exact Nat.lt_irrefl _ hs
    exact ⟨Set.mem_insert_of_mem _ hs, Function.update_of_ne hne _ _⟩
  | raze r name hr => exact .raze hl hr

theorem Feats.confines (hw : WF env w) (hc : c ∈ w.manager.clients) (hf : Feats env c w w') : Confines w w' := by
  refine (Feats.keep (P := fun w' => w'.registry = w.registry ∧ Confines w w') ?_ hf hw ⟨rfl, .refl w⟩).2
  rintro w₁ w₂ hw₁ ⟨hreg, hconf⟩ hfeat
  have hc₁ : c ∈ w₁.registry.clients := by
    rw [hreg]
    exact hc
  exact ⟨(hfeat.registry hw₁).trans hreg, hconf.trans hw.linked (hfeat.confines hw₁ hc₁)⟩

theorem confided_farewell (hl : w.membership.Linked) :
    ∀ y ∈ (w.clientAt c).rooms.elems.flatMap (w.farewell c), w.Reaches y.1 ∧ w.Confided y.1 y.2 := by
  intro y hy
  obtain ⟨r, -, hy⟩ := List.mem_flatMap.mp hy
  obtain ⟨m, hfind, hy⟩ := World.mem_farewell hy
  exact confided_offlineMail hl (Room.mem_of_findMemberByClient hfind).1 y hy

theorem World.withdraw_name (w : World) (c : ClientPtr) (r : RoomPtr) :
    ((w.withdraw c).roomAt r).name = (w.roomAt r).name := by
  unfold World.withdraw World.withoutMember
  dsimp only
  split
  · split <;> rfl
  · rfl

theorem Confines.drop (hi : w.registry.Indexed env) (hl : w.membership.Linked) (hc : c ∈ w.manager.clients) :
    Confines w (remove env w c) := by
  have hnormal : ∃ manager clamped, remove env w c =
      { w.withdraw c with manager := manager, clamped := clamped } := remove_normal hl
  have hclients : (remove env w c).registry.clients = w.registry.clients.erase c := by
    rw [(remove_evolves hi hl hc).registry]
    exact congrArg (List.erase · c) (Registry.unlink_clients w.registry c)
  obtain ⟨manager, clamped, he⟩ := hnormal
  refine ⟨⟨_, by rw [he]; rfl, confided_farewell hl⟩, ?_, ?_, ?_⟩
  · intro k r hk
    rw [he] at hk
    exact World.hears_withdraw hk
  · intro k hk
    cases hk with
    | inl hnew =>
      rw [he] at hnew
      exact .inl hnew
    | inr hlive =>
      obtain ⟨d, hd, hdk⟩ := hlive
      have hd' : d ∈ w.registry.clients.erase c := by
        rw [← hclients]
        exact hd
      have hdc : d ≠ c := by
        rintro rfl
        rw [he] at hdk
        simp [World.withdraw] at hdk
      rw [he] at hdk
      refine .of_connection (List.mem_of_mem_erase hd') ?_
      simpa [World.withdraw, hdc] using hdk
  · intro r hr
    rw [he]
    exact ⟨hr, w.withdraw_name c r⟩

theorem Confines.orphan (hw : WF env w) (hc : c ∈ w.manager.clients) : Confines w (makeOrphan env w c) := by
  have hl := hw.linked
  have hev : Evolves w (w.registry.unlink c) w.membership (makeOrphan env w c) := makeOrphan_evolves hw.indexed hl hc
  cases hck : (w.clientAt c).connection with
  | none =>
    have hsame : makeOrphan env w c = w := by
      unfold makeOrphan
      rw [hck]
    rw [hsame]
    exact .refl w
  | some k₀ =>
    have hclients : (makeOrphan env w c).registry.clients = w.registry.clients := by
      rw [hev.registry]
      exact Registry.unlink_clients w.registry c
    have hl' : (makeOrphan env w c).membership.Linked := by
      rw [hev.membership]
      exact hl
    obtain ⟨manager, clamped, he⟩ := makeOrphan_normal hw.indexed hl hc hck
    rw [he] at hclients hl' ⊢
    dsimp only at hclients hl' ⊢
    generalize hw' : ({ (w.unplug c).settle c (w.clientAt c).rooms.elems .orphan with
      manager := manager, clamped := clamped } : World) = w' at hclients hl' ⊢
    have hclient : w'.clientAt = (w.unplug c).clientAt := by
      rw [← hw']
      rfl
    have hconn : ∀ d k, (w'.clientAt d).connection = some k → (w.clientAt d).connection = some k := by
      intro d k hdk
      have hdc : d ≠ c := by
        rintro rfl
        rw [hclient] at hdk
        simp [World.unplug] at hdk
      rw [hclient] at hdk
      simpa [World.unplug, hdc] using hdk
    have hsilent : Confines w w' := by
      refine ⟨⟨[], ?_, confided_nothing⟩, ?_, ?_, ?_⟩
      · rw [← hw', List.append_nil]
        rfl
      · intro k r hk
        obtain ⟨d, hdk, hr⟩ := hk
        refine ⟨d, hconn d k hdk, ?_⟩
        rw [hclient] at hr
        by_cases hdc : d = c
        · subst hdc
          simpa [World.unplug] using hr
        · simpa [World.unplug, hdc] using hr
      · intro k hk
        cases hk with
        | inl hnew =>
          rw [← hw'] at hnew
          exact .inl hnew
        | inr hlive =>
          obtain ⟨d, hd, hdk⟩ := hlive
          refine .of_connection ?_ (hconn d k hdk)
          change d ∈ w.registry.clients
          rw [← hclients]
          exact hd
      · intro r hr
        rw [← hw']
        exact ⟨hr, rfl⟩
    refine hsilent.trans hl (.of_frame (Frame.emit w' _) rfl ?_)
    intro y hy
    obtain ⟨r, -, hy⟩ := List.mem_flatMap.mp hy
    exact confided_orphanMail hl' y hy

theorem Confines.connect (h : Confines w w') (hk : k ∉ w.opened) (draws : List Token) :
    Confines w (connect env w' k draws) := by
  unfold ClientsManager.connect
  cases hd : draws.find? fun t => !(w'.manager.tokenToClient.lookup t.1).isSome with
  | none => exact ⟨h.sent, h.hears, h.reaches, h.names⟩
  | some drawn =>
    obtain ⟨token, -⟩ := drawn
    refine ⟨h.sent, ?_, ?_, h.names⟩
    · intro k' r hk'
      obtain ⟨d, hdk, hr⟩ := hk'
      refine h.hears k' r ⟨d, ?_⟩
      by_cases hdn : d = ⟨w'.nextClient⟩
      · subst hdn
        simp [Client.setConnection] at hr
      · simp only [Client.setConnection, World.modifyClient_clientAt, Function.update_of_ne hdn] at hdk hr
        exact ⟨hdk, hr⟩
    · intro k' hk'
      cases hk' with
      | inl hnew => exact h.reaches k' (.inl hnew)
      | inr hlive =>
        obtain ⟨d, hd, hdk⟩ := hlive
        by_cases hdn : d = ⟨w'.nextClient⟩
        · subst hdn
          simp only [Client.setConnection, World.modifyClient_clientAt, Function.update_self,
            Option.some.injEq] at hdk
          exact .inl (hdk ▸ hk)
        · refine h.reaches k' (.inr ⟨d, ?_, ?_⟩)
          · simpa [Client.setConnection, hdn] using hd
          · simpa [Client.setConnection, hdn] using hdk

theorem Confines.arrival (w : World) (k : ConnectionPtr) : Confines w (w.arrival env k) :=
  ⟨⟨[], (List.append_nil _).symm, confided_nothing⟩, fun _ _ h => h,
    fun _ h => h.imp_left fun hnew hopened => hnew (List.mem_cons_of_mem k hopened), fun _ hr => ⟨hr, rfl⟩⟩

theorem Registry.Held.unlink {g : Registry} (h : g.Held) (c : ClientPtr) : (g.unlink c).Held := by
  intro d k hd
  rw [Registry.unlink_connection] at hd
  rw [Registry.unlink_clients]
  by_cases hdc : d = c
  · subst hdc
    simp at hd
  · rw [Function.update_of_ne hdc] at hd
    exact h d k hd

theorem Registry.Held.forget {g : Registry} (h : g.Held) (hn : g.clients.Nodup) (hc : g.connection c = none) :
    (g.forget c).Held := by
  intro d k hd
  have hdc : d ≠ c := by
    rintro rfl
    rw [show (g.forget d).connection d = g.connection d from rfl, hc] at hd
    cases hd
  exact (hn.mem_erase_iff).mpr ⟨hdc, h d k hd⟩

theorem Registry.Held.adopt {g : Registry} (h : g.Held) (hn : g.clients.Nodup) (ht : t ∈ g.clients) (hct : c ≠ t) :
    (g.adopt env c t k).Held := by
  intro d k' hd
  change Function.update (Function.update g.connection c none) t (some k) d = some k' at hd
  change d ∈ g.clients.erase c
  rw [hn.mem_erase_iff]
  by_cases hdt : d = t
  · subst hdt
    exact ⟨Ne.symm hct, ht⟩
  · rw [Function.update_of_ne hdt] at hd
    by_cases hdc : d = c
    · subst hdc
      simp at hd
    · rw [Function.update_of_ne hdc] at hd
      exact ⟨hdc, h d k' hd⟩

theorem Registry.Held.register {g : Registry} (h : g.Held) (token : Bytes) : (g.register env k token).Held := by
  intro d k' hd
  change Function.update g.connection ⟨g.nextClient⟩ (some k) d = some k' at hd
  change d ∈ g.clients ++ [⟨g.nextClient⟩]
  rw [List.mem_append, List.mem_singleton]
  by_cases hdn : d = ⟨g.nextClient⟩
  · exact .inr hdn
  · rw [Function.update_of_ne hdn] at hd
    exact .inl (h d k' hd)

theorem Registry.Held.remove (hi : w.registry.Indexed env) (hl : w.membership.Linked) (h : w.registry.Held)
    (hc : c ∈ w.manager.clients) : (remove env w c).registry.Held := by
  rw [(remove_evolves hi hl hc).registry]
  exact (h.unlink c).forget (hi.unlink hc).nodup (Registry.unlink_connection_self _ c)

theorem Registry.Held.connect (h : w.registry.Held) (k : ConnectionPtr) (draws : List Token) :
    (connect env w k draws).registry.Held := by
  rcases connect_evolves env w k draws with ⟨token, -, -, he⟩ | he
  · rw [he.registry]
    exact h.register token
  · rw [he]
    exact h

theorem Registry.Held.routine (hw : WF env w) (h : w.registry.Held) (hr : Routine env w w') : w'.registry.Held := by
  cases hr with
  | clock | mark => exact h
  | opening k draws hk =>
    rcases Server.onOpen_cases env hw k draws with ⟨-, he⟩ | ⟨-, ⟨-, he⟩ | ⟨c, hc, -, -, -, he⟩⟩
    · rw [he]
      exact h
    · rw [he]
      exact Registry.Held.connect (w := w.arrival env k) h k draws
    · rw [he]
      have hdrop : (ClientsManager.remove env (w.arrival env k) c).registry.Held :=
        Registry.Held.remove (World.arrival_indexed hw) hw.linked h hc
      exact hdrop.connect k draws
  | ping c =>
    rw [Client.sendPacket_eq]
    exact h
  | orphan c hc =>
    rw [(makeOrphan_evolves hw.indexed hw.linked hc).registry]
    exact h.unlink c
  | drop c hc => exact Registry.Held.remove hw.indexed hw.linked h hc

theorem Registry.Held.course {sv : AuthServices} {p : Packet} (hw : WF env w) (h : w.registry.Held)
    (hc : Course env sv c p w w') : w'.registry.Held := by
  cases hc with
  | feats hf =>
    rw [hf.registry hw]
    exact h
  | login a user q =>
    cases user with
    | none => exact h
    | some user =>
      have hf : Frame w (PacketAuth.initUser env w c user) := Frame.modifyClient w c _ rfl rfl rfl rfl
      change (PacketAuth.initUser env w c user).registry.Held
      rw [hf.registry]
      exact h
  | enter r id sequenceId loadHistory _ _ _ _ _ hs =>
    rw [hs.frame.registry]
    change (w.enter c r id).registry.Held
    rw [(enter_evolves w c r id).registry]
    exact h
  | revive a t k q _ _ _ hc ht hct hk =>
    have hw' : WF env (w.emit [(k, .packet q)]) := hw.frame (Frame.emit w _)
    have hev := (reviveClient_evolves hw'.indexed hw'.linked hc ht hct hk).then_frame
      (Server.reviveClient_frame (w.emit [(k, .packet q)]) c t)
    rw [hev.registry]
    have ht' : t ∈ (w.registry.unlink t).clients := by
      rw [Registry.unlink_clients]
      exact ht
    exact (h.unlink t).adopt (hw.indexed.unlink ht).nodup ht' hct

theorem held_run (env : Env) (es : List Event) : (run env es).registry.Held := by
  refine run_course_invariant (P := fun w => w.registry.Held) ?_ ?_ ?_
  · intro d k hd
    cases hd
  · intro e _ k msg sv c p w w' _ hw _ _ _ h hcourse
    exact h.course hw hcourse
  · intro w w' hw h hchore
    cases hchore with
    | routine hr => exact h.routine hw hr
    | save => exact h
    | restart =>
      obtain ⟨ms, -, he⟩ := World.restart_evolves hw.saved
      rw [he.registry]
      intro d k hd
      cases hd

theorem Routine.confines (hw : WF env w) (hheld : w.registry.Held) (hr : Routine env w w') : Confines w w' := by
  have hl := hw.linked
  have hsilent : ∀ {w' : World}, w'.sent = w.sent → Frame w w' → Confines w w' := fun hs hf =>
    .of_frame hf (by rw [hs, List.append_nil]) confided_nothing
  cases hr with
  | clock now => exact hsilent rfl ⟨rfl, rfl, rfl, rfl, rfl⟩
  | opening k draws hk =>
    have harrival : Confines w (w.arrival env k) := .arrival w k
    rcases Server.onOpen_cases env hw k draws with ⟨-, he⟩ | ⟨-, ⟨-, he⟩ | ⟨c, hc, -, -, -, he⟩⟩
    · rw [he]
      exact ⟨harrival.sent, harrival.hears, harrival.reaches, harrival.names⟩
    · rw [he]
      exact harrival.connect hk draws
    · rw [he]
      have hdrop : Confines (w.arrival env k) (remove env (w.arrival env k) c) :=
        .drop (World.arrival_indexed hw) hl hc
      exact (harrival.trans hl hdrop).connect hk draws
  | ping c =>
    rw [Client.sendPacket_eq]
    refine .of_frame (Frame.emit w _) rfl ?_
    intro y hy
    obtain ⟨hk, he⟩ := World.mem_mail.mp hy
    rw [he]
    exact ⟨.of_connection (hheld c y.1 hk) hk, trivial⟩
  | mark k => exact hsilent rfl (Server.closeConnection_frame w k)
  | orphan c hc => exact .orphan hw hc
  | drop c hc => exact .drop hw.indexed hl hc

/-- Everything new goes where it may. -/
def World.Entitles (w w' : World) : Prop :=
  ∃ out, w'.sent = w.sent ++ out ∧ ∀ x ∈ out, w.Reaches x.1 ∧ w.Entitled w' x.1 x.2

theorem World.Confided.entitled (h : w.Confided k x) : w.Entitled w' k x := by
  cases x with
  | raw => exact h.elim
  | packet p =>
    cases p with
    | auth => exact h.elim
    | message | onlineList | status | join => exact .inl h
    | _ => trivial

theorem World.reaches_congr (h : w'.registry = w.registry) : w'.Reaches k ↔ w.Reaches k := by
  change (k ∉ w'.registry.opened ∨ ∃ d ∈ w'.registry.clients, w'.registry.connection d = some k) ↔ w.Reaches k
  rw [h]
  exact Iff.rfl

theorem Frame.symm (hf : Frame w w') : Frame w' w :=
  ⟨hf.registry.symm, hf.membership.symm, hf.nullDeref.symm, hf.hung.symm, hf.disk.symm⟩

theorem Frame.hearsNamed (hf : Frame w w') (h : w.HearsNamed k name) : w'.HearsNamed k name := by
  obtain ⟨r, hr, hname, hears⟩ := h
  refine ⟨r, ?_, ?_, hf.symm.hears hears⟩
  · exact (Set.ext_iff.mp (congrArg Membership.rooms hf.membership) r).mpr hr
  · exact (congrFun (congrArg Membership.name hf.membership) r).trans hname

theorem World.Entitles.of_frame (h : w'.Entitles w'') (hf : Frame w w') (hsent : w'.sent = w.sent)
    (hroom : w'.roomAt = w.roomAt) : w.Entitles w'' := by
  obtain ⟨out, hout, hall⟩ := h
  refine ⟨out, by rw [hout, hsent], ?_⟩
  intro y hy
  obtain ⟨hk, hx⟩ := hall y hy
  refine ⟨(World.reaches_congr hf.registry).mp hk, ?_⟩
  obtain ⟨k, x⟩ := y
  cases x with
  | raw line =>
    obtain ⟨r, hr, hline, hears⟩ := hx
    rw [hroom] at hline
    exact ⟨r, (Set.ext_iff.mp (congrArg Membership.rooms hf.membership) r).mp hr, hline, hears⟩
  | packet p =>
    cases p with
    | message | onlineList | status | join => exact hx.imp_left hf.symm.hearsNamed
    | _ => exact hx

theorem Confines.entitles (h : Confines w w') : w.Entitles w' := by
  obtain ⟨out, hsent, hall⟩ := h.sent
  exact ⟨out, hsent, fun y hy => ⟨(hall y hy).1, (hall y hy).2.entitled⟩⟩

theorem Entitled.answer {p : Packet} (hp : p.Answer w' c) (hc : c ∈ w'.manager.clients)
    (hk : (w'.clientAt c).connection = some k) : w.Entitled w' k (.packet p) := by
  cases p with
  | auth p => exact ⟨c, hc, hk, hp⟩
  | message | onlineList | status | join => exact hp.elim
  | _ => trivial

theorem Entitled.welcome {sequenceId : Option UInt32} {loadHistory : Bool} (hr : r ∈ w.rooms)
    (hhome : (w'.memberAt m).room = r) (hhistory : (w'.roomAt r).history = (w.roomAt r).history)
    (hears : ∀ k, (w'.clientAt c).connection = some k → w''.Hears k r ∧ w''.HearsNamed k (w'.roomAt r).name) :
    ∀ y ∈ w'.welcomeMail c r m sequenceId loadHistory, (w'.clientAt c).connection = some y.1 ∧
      w.Entitled w'' y.1 y.2 := by
  intro y hy
  unfold World.welcomeMail at hy
  rw [List.mem_append, List.mem_append] at hy
  obtain (hy | hy) | hy := hy
  · obtain ⟨hk, he⟩ := World.mem_mail.mp hy
    rw [he]
    have hnamed := (hears y.1 hk).2
    rw [← hhome] at hnamed
    exact ⟨hk, .inr hnamed⟩
  · obtain ⟨hk, he⟩ := World.mem_mail.mp hy
    rw [he]
    exact ⟨hk, .inr (hears y.1 hk).2⟩
  · split at hy
    · obtain ⟨line, hline, hy⟩ := List.mem_flatMap.mp hy
      obtain ⟨hk, he⟩ := World.mem_mail.mp hy
      rw [he]
      rw [hhistory] at hline
      exact ⟨hk, r, hr, hline, (hears y.1 hk).1⟩
    · cases hy

theorem World.Entitles.enter {id : UInt32} {sequenceId : Option UInt32} {loadHistory : Bool} (hw : WF env w)
    (hc : c ∈ w.manager.clients) (hr : r ∈ w.rooms) (hcr : r ∉ (w.clientAt c).rooms)
    (hs : Stills env c
      (let w' := w.enter c r id
      w'.emit (w'.welcomeMail c r ⟨w.nextMember⟩ sequenceId loadHistory)) w') : w.Entitles w' := by
  have hev := enter_evolves w c r id
  dsimp only at hs
  generalize hout : (w.enter c r id).welcomeMail c r ⟨w.nextMember⟩ sequenceId loadHistory = welcome at hs
  have hw₂ : WF env ((w.enter c r id).emit welcome) :=
    hw.relink (hev.then_frame (Frame.emit _ _)) (hw.linked.enter w.not_issued hc hr hcr)
  have hf : Frame ((w.enter c r id).emit welcome) w' := hs.frame
  have hreach : ∀ k, ((w.enter c r id).emit welcome).Reaches k → w.Reaches k :=
    fun k hk => (World.reaches_congr hev.registry).mp hk
  obtain ⟨out, hsent, hall⟩ := (Feats.confines hw₂ hc hs.feats).sent
  refine ⟨welcome ++ out, ?_, ?_⟩
  · rw [hsent, World.emit_sent, List.append_assoc]
    rfl
  · intro y hy
    cases List.mem_append.mp hy with
    | inl hy =>
      have hgreeted : ∀ y ∈ welcome, ((w.enter c r id).clientAt c).connection = some y.1 ∧ w.Entitled w' y.1 y.2 := by
        rw [← hout]
        refine Entitled.welcome hr ?_ ?_ fun k hk => ?_
        · rw [World.memberAt_enter_new]
        · simp [World.enter]
        · have hears : World.Hears ((w.enter c r id).emit welcome) k r := by
            refine ⟨c, hk, ?_⟩
            simp [World.enter]
          exact ⟨hf.symm.hears hears, hf.hearsNamed ⟨r, hr, rfl, hears⟩⟩
      obtain ⟨hk, hentitled⟩ := hgreeted y hy
      exact ⟨hreach y.1 (.of_connection hc hk), hentitled⟩
    | inr hy =>
      obtain ⟨hk, hconfided⟩ := hall y hy
      refine ⟨hreach y.1 hk, ?_⟩
      obtain ⟨k, x⟩ := y
      cases x with
      | raw => exact hconfided.elim
      | packet p =>
        cases p with
        | auth => exact hconfided.elim
        | message | onlineList | status | join => exact .inr (hf.hearsNamed hconfided)
        | _ => trivial

theorem World.reaches_revive {k' : ConnectionPtr} (hc : c ∈ w.manager.clients) (ht : t ∈ w.manager.clients)
    (hk : (w.clientAt c).connection = some k)
    (hregistry : w'.registry = ((World.registry w).unlink t).adopt env c t k) (h : w'.Reaches k') : w.Reaches k' := by
  change k' ∉ w'.registry.opened ∨ ∃ d ∈ w'.registry.clients, w'.registry.connection d = some k' at h
  rw [hregistry] at h
  have hopened : ((w.registry.unlink t).adopt env c t k).opened = w.opened := by
    unfold Registry.adopt Registry.unlink
    cases w.registry.connection t with
    | none => rfl
    | some _ => rfl
  rw [hopened] at h
  refine h.imp_right fun hlive => ?_
  obtain ⟨d, hd, hdk⟩ := hlive
  change Function.update (Function.update (w.registry.unlink t).connection c none) t (some k) d = some k' at hdk
  by_cases hdt : d = t
  · subst hdt
    rw [Function.update_self] at hdk
    exact ⟨c, hc, hk.trans hdk⟩
  · rw [Function.update_of_ne hdt] at hdk
    by_cases hdc : d = c
    · subst hdc
      simp at hdk
    · rw [Function.update_of_ne hdc, Registry.unlink_connection, Function.update_of_ne hdt] at hdk
      have hd' : d ∈ (w.registry.unlink t).clients := List.mem_of_mem_erase hd
      rw [Registry.unlink_clients] at hd'
      exact ⟨d, hd', hdk⟩

theorem World.Entitles.revive (hw : WF env w) {p : Packet} (hp : p.Answer w t) (hc : c ∈ w.manager.clients)
    (ht : t ∈ w.manager.clients) (hct : c ≠ t) (hk : (w.clientAt c).connection = some k) :
    w.Entitles (Server.reviveClient env (w.emit [(k, .packet p)]) c t).1 := by
  have hw₀ : WF env (w.emit [(k, .packet p)]) := hw.frame (Frame.emit w _)
  have hl := hw₀.linked
  have hev := (reviveClient_evolves hw₀.indexed hl hc ht hct hk).then_frame
    (Server.reviveClient_frame (w.emit [(k, .packet p)]) c t)
  have hsent := Server.reviveClient_sent env hl hct hk
  have hthins : Thins (w.emit [(k, .packet p)]) (Server.reviveClient env (w.emit [(k, .packet p)]) c t).1 :=
    .reviveClient _ c t
  have hl' : (Server.reviveClient env (w.emit [(k, .packet p)]) c t).1.membership.Linked := hev.membership ▸ hl.withdraw
  have hself : ((Server.reviveClient env (w.emit [(k, .packet p)]) c t).1.clientAt t).connection = some k ∧
      ((Server.reviveClient env (w.emit [(k, .packet p)]) c t).1.clientAt t).rooms = (w.clientAt t).rooms ∧
      ((Server.reviveClient env (w.emit [(k, .packet p)]) c t).1.clientAt t).uid = (w.clientAt t).uid ∧
      ((Server.reviveClient env (w.emit [(k, .packet p)]) c t).1.clientAt t).name = (w.clientAt t).name ∧
      ((Server.reviveClient env (w.emit [(k, .packet p)]) c t).1.clientAt t).token = (w.clientAt t).token := by
    obtain ⟨manager, clamped, closing, he⟩ := Server.reviveClient_normal env hl hct hk
    rw [he]
    simp [World.plug, World.withdraw, World.settle, Ne.symm hct]
  have hregistry := hev.registry
  have hhistory := fun r => (hthins.log r).1
  have hold : ∀ r ∈ (w.clientAt t).rooms, r ∈ w.rooms := fun r hr => hl.listed_of_joined hr
  have hgone := confided_farewell (c := c) hl
  generalize (Server.reviveClient env (w.emit [(k, .packet p)]) c t).1 = w' at *
  have ht' : t ∈ w'.manager.clients := by
    change t ∈ w'.registry.clients
    rw [hregistry]
    refine (List.mem_erase_of_ne (Ne.symm hct)).mpr ?_
    change t ∈ ((w.emit [(k, .packet p)]).registry.unlink t).clients
    rw [Registry.unlink_clients]
    exact ht
  have hreach : ∀ k', w'.Reaches k' → w.Reaches k' := fun k' hk' => World.reaches_revive hc ht hk hregistry hk'
  refine ⟨_, hsent.trans (List.append_assoc _ _ _), ?_⟩
  intro y hy
  cases List.mem_append.mp hy with
  | inl hanswer =>
    rw [List.mem_singleton.mp hanswer]
    refine ⟨.of_connection hc hk, Entitled.answer ?_ ht' hself.1⟩
    cases p with
    | auth p => exact ⟨hp.1.trans hself.2.2.1.symm, hp.2.1.trans hself.2.2.2.1.symm, hp.2.2.trans hself.2.2.2.2.symm⟩
    | _ => exact hp
  | inr hy =>
    cases List.mem_append.mp hy with
    | inl hy =>
      obtain ⟨hk', hconfided⟩ := hgone y hy
      exact ⟨hk', World.Confided.entitled hconfided⟩
    | inr hy =>
      obtain ⟨r, hr, hy⟩ := List.mem_flatMap.mp hy
      have hrt : r ∈ (w.clientAt t).rooms := IterSet.mem_elems.mp hr
      have hrt' : r ∈ (w'.clientAt t).rooms := by
        rw [hself.2.1]
        exact hrt
      obtain ⟨n, hn⟩ := Room.findMemberByClient_isSome hl' hrt'
      have hin := (Room.mem_of_findMemberByClient hn).1
      cases World.mem_homecoming hn hy with
      | inl hwelcome =>
        have hheard : ∀ k', (w'.clientAt t).connection = some k' →
            w'.Hears k' r ∧ w'.HearsNamed k' (w'.roomAt r).name := by
          intro k' hk'
          have hears : w'.Hears k' r := ⟨t, hk', hrt'⟩
          exact ⟨hears, hears.named hl'⟩
        have hgreeted := Entitled.welcome (hold r hrt) (hl'.home r n hin) (hhistory r) hheard y hwelcome
        exact ⟨hreach y.1 (.of_connection ht' hgreeted.1), hgreeted.2⟩
      | inr htold =>
        have hstatus := confided_status (p := PacketStatus.ofMember w' n .back) hl' hin rfl y htold.2
        refine ⟨hreach y.1 hstatus.1, ?_⟩
        have hx : y.2 = .packet (.status (PacketStatus.ofMember w' n .back)) := (World.mem_roomMail.mp htold.2).2
        rw [hx] at hstatus ⊢
        exact .inr hstatus.2

theorem Course.entitles {sv : AuthServices} {p : Packet} (hw : WF env w) (hc : c ∈ w.manager.clients)
    (h : Course env sv c p w w') : w.Entitles w' := by
  cases h with
  | feats hf => exact (hf.confines hw hc).entitles
  | login a user q _ _ hq =>
    have hsame : (user.elim w (PacketAuth.initUser env w c)).sent = w.sent ∧
        (user.elim w (PacketAuth.initUser env w c)).registry = w.registry := by
      cases user with
      | none => exact ⟨rfl, rfl⟩
      | some user =>
        have hf : Frame w (PacketAuth.initUser env w c user) := Frame.modifyClient w c _ rfl rfl rfl rfl
        exact ⟨rfl, hf.registry⟩
    dsimp only
    generalize user.elim w (PacketAuth.initUser env w c) = w₁ at hq hsame
    have hc₁ : c ∈ w₁.manager.clients := by
      change c ∈ w₁.registry.clients
      rw [hsame.2]
      exact hc
    refine ⟨w₁.mail c (.packet q), by rw [World.emit_sent, hsame.1], ?_⟩
    intro y hy
    obtain ⟨hk, he⟩ := World.mem_mail.mp hy
    rw [he]
    exact ⟨(World.reaches_congr hsame.2).mp (.of_connection hc₁ hk), Entitled.answer hq hc₁ hk⟩
  | enter r id sequenceId loadHistory hc hr hcr hid ha hs => exact World.Entitles.enter hw hc hr hcr hs
  | revive a t k q _ _ hq hc ht hct hk => exact World.Entitles.revive hw hq hc ht hct hk

theorem Routines.confines (hw : WF env w) (hheld : w.registry.Held) (hr : Routines env w w') : Confines w w' := by
  refine (steps_preserve (P := fun w' => WF env w' ∧ w'.registry.Held ∧ Confines w w') ?_ hr
    ⟨hw, hheld, .refl w⟩).2.2
  rintro w₁ w₂ ⟨hw₁, hheld₁, hconf⟩ hroutine
  exact ⟨hw₁.routine hroutine, hheld₁.routine hw₁ hroutine, hconf.trans hw.linked (hroutine.confines hw₁ hheld₁)⟩

/-- In every run, whatever an event sends goes to the connection of a registered client, or to one that was not
opened yet: never to one that was refused, closed, lost or taken over. Messages, statuses, lists and answers to
a join go to clients that are in the room they are about before or after the event, lines of a history to clients
in that room, and the identity in an answer to an auth packet to the client whose identity it is. -/
theorem run_entitles (env : Env) (es : List Event) (e : Event) :
    (run env es).Entitles ((run env es).step env e) := by
  have hw := wf_run env es
  have hheld := held_run env es
  generalize run env es = w at hw hheld
  have hw' : WF env { w with now := e.now } := hw.chore (.clock e.now)
  rcases World.step_course hw e with hr | ⟨k, msg, sv, c, p, -, hc, hk, hcourse⟩ | ⟨-, hs⟩
  · have hconf : Confines { w with now := e.now } (w.step env e) := Routines.confines hw' hheld hr
    exact hconf.entitles
  · have htouch : Frame { w with now := e.now }
        (World.modifyClient { w with now := e.now } c fun cli => { cli with lastPacketTime := e.now }) :=
      Frame.modifyClient _ c _ rfl rfl rfl rfl
    have hclock : Frame w { w with now := e.now } := ⟨rfl, rfl, rfl, rfl, rfl⟩
    exact (hcourse.entitles (hw'.frame htouch) hc).of_frame (hclock.trans htouch) rfl rfl
  · generalize w.step env e = w' at hs
    cases hs with
    | routine hr => exact (hr.confines hw' hheld).entitles
    | save => exact ⟨[], (List.append_nil _).symm, by simp⟩
    | restart =>
      refine ⟨[], ?_, by simp⟩
      rw [World.restart_sent, List.append_nil]

end
end WsChat
