import WsChat.History

/-! A packet about one room leaves every other room alone. -/
namespace WsChat
open Lib Relation ClientsManager

/-- A room has a name, and the lines in its history are public messages in it. -/
structure Room.Logged (env : Env) (rm : Room) : Prop where
  named : rm.name ≠ []
  lines : ∀ s ∈ rm.history, ∃ p : PacketMessage, s = env.write p.serialize ∧ p.toId = 0 ∧ p.target = rm.name

structure World.Logged (env : Env) (w : World) : Prop where
  rooms : ∀ r ∈ w.rooms, Room.Logged env (w.roomAt r)
  disk : w.Stored (Room.Logged env)

section
variable {env : Env} {c : ClientPtr} {w₀ w w' w'' : World} {S : Bytes → Prop} {r s : RoomPtr}

theorem Room.Logged.of_sameLog {rm rm' : Room} (h : Room.Logged env rm) (hlog : Room.SameLog rm rm') :
    Room.Logged env rm' :=
  ⟨hlog.name.symm ▸ h.named, hlog.history.symm ▸ hlog.name.symm ▸ h.lines⟩

theorem Room.mem_trimHistory {maxHistory : Int} {l : List Bytes} {s : Bytes} (h : s ∈ Room.trimHistory maxHistory l) :
    s ∈ l := by
  rw [Room.trimHistory_eq] at h
  exact List.mem_of_mem_drop h

theorem World.Logged.hushed (h : w.Logged env) (hl : w.membership.Linked) (hush : Hushed w₀ w w') :
    w'.Logged env := by
  refine ⟨fun r hr => ?_, by unfold World.Stored; rw [hush.disk]; exact h.disk⟩
  rcases hush.rooms r hr with hr | hnew
  · exact (h.rooms r hr).of_sameLog (hush.keeps r (hl.built r hr)).2
  · refine ⟨hnew.named, fun s hs => ?_⟩
    rw [hnew.history] at hs
    cases hs

theorem World.Logged.move (h : w.Logged env) (hw : WF env w) (hs : Seated w) (hm : Move env c w₀ S w w') :
    w'.Logged env := by
  rcases hm.speech hw hs with hush | ⟨r, m, style, text, hmem, -, -, -⟩
  · exact h.hushed hw.linked hush
  · rw [Room.say_eq]
    refine ⟨fun s hs => ?_, h.disk⟩
    have hlog := h.rooms s hs
    by_cases hsr : s = r
    · subst hsr
      have hhome : (w.memberAt m).room = s := hw.linked.home s m hmem
      refine ⟨by simpa using hlog.named, fun line hline => ?_⟩
      simp only [World.emit, World.modifyRoom_roomAt, Function.update_self, PacketMessage.ofMember, if_true] at hline ⊢
      rcases List.mem_append.mp (Room.mem_trimHistory hline) with hline | hline
      · exact hlog.lines line hline
      · exact ⟨_, List.mem_singleton.mp hline, rfl, by rw [hhome]; rfl⟩
    · simpa [hsr] using hlog

theorem World.Logged.chore (h : w.Logged env) (hw : WF env w) (hc : Chore env w w') : w'.Logged env := by
  cases hc with
  | routine hr =>
    have hush : Hushed w w w' := hr.hushed hw
    exact h.hushed hw.linked hush
  | save => exact ⟨h.rooms, .inr ⟨w, rfl, h.rooms⟩⟩
  | restart =>
    refine ⟨h.disk.restart fun rm h => h.of_sameLog ⟨rfl, rfl, rfl⟩, ?_⟩
    unfold World.Stored
    rw [World.restart_disk hw.saved]
    exact h.disk

theorem logged_run (env : Env) (es : List Event) : (run env es).Logged env := by
  refine (run_invariant (P := fun w => Seated w ∧ w.Logged env) ⟨Seated.init env, ?_⟩ (fun _ _ _ _ hw h hm => ?_)
    (fun _ _ hw h hc => ?_) es).2
  · exact ⟨fun r hr => absurd hr (IterSet.not_mem_empty r), .inl rfl⟩
  · exact ⟨h.1.move hw hm, h.2.move hw h.1 hm⟩
  · exact ⟨h.1.chore hw hc, h.2.chore hw hc⟩

/-- What is sent is not about the room of the name. -/
def Wire.Apart (env : Env) (name : Bytes) : Wire → Prop
  | .packet p => p.target ≠ name
  | .raw s => ∃ p : PacketMessage, s = env.write p.serialize ∧ p.target ≠ name

/-- A room and its members are as they were, and nothing was sent about it. -/
structure Spared (env : Env) (r : RoomPtr) (w w' : World) : Prop where
  listed : r ∈ w.rooms → r ∈ w'.rooms
  room : w'.roomAt r = w.roomAt r
  member : ∀ m ∈ (w.roomAt r).members, w'.memberAt m = w.memberAt m
  joined : ∀ d, r ∈ (w'.clientAt d).rooms ↔ r ∈ (w.clientAt d).rooms
  sent : ∃ out, w'.sent = w.sent ++ out ∧ ∀ x ∈ out, x.2.Apart env (w.roomAt r).name

namespace Spared

theorem refl (w : World) : Spared env r w w :=
  ⟨id, rfl, fun _ _ => rfl, fun _ => Iff.rfl, [], by simp, by simp⟩

theorem trans (h : Spared env r w w') (h' : Spared env r w' w'') : Spared env r w w'' := by
  obtain ⟨out, hout, hap⟩ := h.sent
  obtain ⟨out', hout', hap'⟩ := h'.sent
  refine ⟨h'.listed ∘ h.listed, h'.room.trans h.room, fun m hm => ?_, fun d => (h'.joined d).trans (h.joined d),
    out ++ out', by rw [hout', hout, List.append_assoc], fun x hx => ?_⟩
  · have hm' : m ∈ (w'.roomAt r).members := h.room.symm ▸ hm
    exact (h'.member m hm').trans (h.member m hm)
  · rcases List.mem_append.mp hx with hx | hx
    · exact hap x hx
    · exact h.room ▸ hap' x hx

theorem emit {out : List (ConnectionPtr × Wire)} (h : ∀ x ∈ out, x.2.Apart env (w.roomAt r).name) :
    Spared env r w (w.emit out) :=
  ⟨id, rfl, fun _ _ => rfl, fun _ => Iff.rfl, out, rfl, h⟩

theorem modifyClient (c : ClientPtr) (f : Client → Client)
    (h : r ∈ (f (w.clientAt c)).rooms ↔ r ∈ (w.clientAt c).rooms) : Spared env r w (w.modifyClient c f) := by
  refine ⟨id, rfl, fun _ _ => rfl, fun d => ?_, [], by simp, by simp⟩
  by_cases hd : d = c
  · subst hd
    simpa using h
  · simp [hd]

theorem modifyRoom (hne : r ≠ s) (f : Room → Room) : Spared env r w (w.modifyRoom s f) := by
  refine ⟨id, ?_, fun _ _ => rfl, fun _ => Iff.rfl, [], by simp, by simp⟩
  simp [hne]

theorem modifyMember (hl : w.membership.Linked) (hne : r ≠ s) {m : MemberPtr} (hm : m ∈ (w.roomAt s).members)
    (f : Member → Member) : Spared env r w (w.modifyMember m f) := by
  refine ⟨id, rfl, fun n hn => ?_, fun _ => Iff.rfl, [], by simp, by simp⟩
  have hnm : n ≠ m := by
    rintro rfl
    have hhome : (w.memberAt n).room = r := hl.home r n hn
    exact hne (hhome.symm.trans (hl.home s n hm))
  simp [hnm]

end Spared

def Wire.OfRoom (name : Bytes) (x : Wire) : Prop := ∃ p : Packet, x = .packet p ∧ p.target = name

theorem Wire.OfRoom.apart {name name' : Bytes} {x : Wire} (h : x.OfRoom name) (hne : name ≠ name') :
    x.Apart env name' := by
  obtain ⟨p, rfl, rfl⟩ := h
  exact hne

theorem ofRoom_mail {d : ClientPtr} {x : Wire} {name : Bytes} (h : x.OfRoom name) :
    ∀ y ∈ w.mail d x, y.2.OfRoom name := fun _ hy => (World.mem_mail.mp hy).2 ▸ h

theorem ofRoom_roomMail {x : Wire} {name : Bytes} (h : x.OfRoom name) : ∀ y ∈ w.roomMail s x, y.2.OfRoom name :=
  fun _ hy => (World.mem_roomMail.mp hy).2 ▸ h

theorem ofRoom_append {a b : List (ConnectionPtr × Wire)} {name : Bytes} (ha : ∀ x ∈ a, x.2.OfRoom name)
    (hb : ∀ x ∈ b, x.2.OfRoom name) : ∀ x ∈ a ++ b, x.2.OfRoom name :=
  fun x hx => (List.mem_append.mp hx).elim (ha x) (hb x)

theorem PacketStatus.ofMember_ofRoom {m : MemberPtr} (hm : (w.memberAt m).room = s) (stat : Status) :
    (Wire.packet (.status (PacketStatus.ofMember w m stat))).OfRoom (w.roomAt s).name :=
  ⟨_, rfl, congrArg (fun s => (w.roomAt s).name) hm⟩

theorem Member.nickPacket_ofRoom {m : MemberPtr} (hm : (w.memberAt m).room = s) (oldnick : Bytes) :
    (Wire.packet (.status (Member.nickPacket w m oldnick))).OfRoom (w.roomAt s).name := by
  refine ⟨_, rfl, ?_⟩
  have htarget : (PacketStatus.ofMember w m (w.memberAt m).status).target = (w.roomAt s).name :=
    congrArg (fun s => (w.roomAt s).name) hm
  unfold Member.nickPacket Packet.target
  dsimp only
  split
  · exact htarget
  · split <;> exact htarget

theorem PacketMessage.ofMember_ofRoom {m : MemberPtr} (hm : (w.memberAt m).room = s) (p : PacketMessage)
    (text : Bytes) (hp : p.target = (PacketMessage.ofMember w m text).target) :
    (Wire.packet (.message p)).OfRoom (w.roomAt s).name :=
  ⟨_, rfl, hp.trans (congrArg (fun s => (w.roomAt s).name) hm)⟩

theorem World.offlineMail_ofRoom {m : MemberPtr} (hm : (w.memberAt m).room = s) :
    ∀ x ∈ w.offlineMail s m, x.2.OfRoom (w.roomAt s).name := by
  unfold World.offlineMail
  split
  · exact ofRoom_roomMail (PacketStatus.ofMember_ofRoom hm _)
  · intro x hx
    cases hx

theorem World.announcement_ofRoom {m : MemberPtr} (hm : (w.memberAt m).room = s) (stat : Status) :
    ∀ x ∈ w.announcement m stat, x.2.OfRoom (w.roomAt s).name := by
  unfold World.announcement
  dsimp only
  split
  · exact ofRoom_roomMail (PacketStatus.ofMember_ofRoom hm _)
  · exact ofRoom_mail (PacketStatus.ofMember_ofRoom hm _)

theorem Wire.Plain.apart {x : Wire} {name : Bytes} (h : x.Plain S) (hname : name ≠ []) (hS : ¬ S name) :
    x.Apart env name := by
  cases x with
  | raw => exact h.elim
  | packet p =>
    have htarget : p.target = [] ∨ S p.target := by
      cases p <;> first | exact h.elim | exact h
    rcases htarget with ht | ht
    · exact fun he => hname (he.symm.trans ht)
    · exact fun he => hS (he ▸ ht)

theorem Quiet.spared (hl : w.membership.Linked) (hname : (w.roomAt r).name ≠ []) (hS : ¬ S (w.roomAt r).name)
    (h : Quiet env c w₀ S w w') : Spared env r w w' := by
  have hother : ∀ {s}, S (w.roomAt s).name → r ≠ s := by
    rintro s hs rfl
    exact hS hs
  have htell : ∀ {s} {out : List (ConnectionPtr × Wire)}, S (w.roomAt s).name →
      (∀ x ∈ out, x.2.OfRoom (w.roomAt s).name) → ∀ x ∈ out, x.2.Apart env (w.roomAt r).name :=
    fun hs h x hx => (h x hx).apart fun he => hS (he ▸ hs)
  have hhome : ∀ {s m}, m ∈ (w.roomAt s).members → (w.memberAt m).room = s := fun {s m} hm => hl.home s m hm
  cases h with
  | tell out hplain => exact .emit fun x hx => (hplain x hx).apart hname hS
  | list d s sequenceId hs => exact .emit (htell hs (ofRoom_mail ⟨_, rfl, rfl⟩))
  | touch => exact .modifyClient _ _ Iff.rfl
  | identify => exact .modifyClient _ _ Iff.rfl
  | say s m style text hs hm =>
    rw [Room.say_eq]
    refine (Spared.modifyRoom (hother hs) _).trans (.emit ?_)
    simp only [World.modifyRoom_roomAt, Function.update_of_ne (hother hs)]
    exact htell hs (ofRoom_roomMail (PacketMessage.ofMember_ofRoom (hhome hm) _ text rfl))
  | whisper s m m2 text hs hm =>
    have hp := PacketMessage.ofMember_ofRoom (hhome hm) (PacketMessage.ofMembers w m m2 text) text rfl
    exact .emit (htell hs (ofRoom_append (ofRoom_mail hp) (ofRoom_mail hp)))
  | presence s m stat hs hm =>
    refine (Spared.modifyMember hl (hother hs) hm _).trans (.emit ?_)
    exact htell hs (ofRoom_roomMail (PacketStatus.ofMember_ofRoom (by simpa [Member.setStatus] using hhome hm) _))
  | typing s m stat hs hm => exact .emit (htell hs (ofRoom_roomMail (PacketStatus.ofMember_ofRoom (hhome hm) _)))
  | restyle s m girl color stat hs hm =>
    rw [Member.announce_eq]
    refine (Spared.modifyMember hl (hother hs) hm _).trans (.emit ?_)
    exact htell hs (World.announcement_ofRoom (by simpa using hhome hm) _)
  | dress s m girl color hs hm => exact .modifyMember hl (hother hs) hm _
  | rename s m nick hs hm =>
    refine (Spared.modifyMember hl (hother hs) hm _).trans (.emit ?_)
    exact htell hs (ofRoom_roomMail (Member.nickPacket_ofRoom (by simpa using hhome hm) _))
  | ban s nicks ips uids hs => exact .modifyRoom (hother hs) _
  | appoint s moderators hs => exact .modifyRoom (hother hs) _

theorem World.welcomeMail_apart {name : Bytes} (hlog : Room.Logged env (w.roomAt s)) {m : MemberPtr}
    (hm : (w.memberAt m).room = s) (hne : (w.roomAt s).name ≠ name) (sequenceId : Option UInt32) (loadHistory : Bool) :
    ∀ x ∈ w.welcomeMail c s m sequenceId loadHistory, x.2.Apart env name := by
  have hjoin : (Wire.packet (.join (PacketJoin.ofMember w m sequenceId))).OfRoom (w.roomAt s).name :=
    ⟨_, rfl, congrArg (fun s => (w.roomAt s).name) hm⟩
  intro x hx
  unfold World.welcomeMail at hx
  rcases List.mem_append.mp hx with hx | hx
  · have hof := ofRoom_append (ofRoom_mail hjoin) (ofRoom_mail ⟨_, rfl, rfl⟩) x hx
    exact hof.apart hne
  · split at hx
    · obtain ⟨line, hline, hx⟩ := List.mem_flatMap.mp hx
      obtain ⟨p, hp, -, htarget⟩ := hlog.lines line hline
      rw [(World.mem_mail.mp hx).2]
      exact ⟨p, hp, fun he => hne (htarget.symm.trans he)⟩
    · cases hx

namespace Spared

theorem fresh (hl : w.membership.Linked) : ∀ m ∈ (w.roomAt r).members, m ≠ ⟨w.nextMember⟩ := by
  have hnew : (⟨w.nextMember⟩ : MemberPtr) ∉ w.membership.issued := fun h => Nat.lt_irrefl _ h
  exact fun m hm => hl.ne_of_mem hnew m hm

theorem issue (hl : w.membership.Linked) (hne : r ≠ s) (c : ClientPtr) (id : UInt32) :
    Spared env r w (w.issue c s id) := by
  refine ⟨fun h => h, ?_, fun m hm => ?_, fun _ => Iff.rfl, [], by simp [World.issue], by simp⟩
  · simp [World.issue, hne]
  · simp [World.issue, fresh hl m hm]

theorem enter (hl : w.membership.Linked) (hne : r ≠ s) (c : ClientPtr) (id : UInt32) :
    Spared env r w (w.enter c s id) := by
  refine ⟨fun h => h, ?_, fun m hm => ?_, fun d => ?_, [], by simp [World.enter], by simp⟩
  · simp [World.enter, hne]
  · simp [World.enter, fresh hl m hm]
  · by_cases hd : d = c
    · subst hd
      simp [World.enter, IterSet.mem_insert, hne]
    · simp [World.enter, hd]

theorem expel (hne : r ≠ s) (c : ClientPtr) (f : Room → Room) {out : List (ConnectionPtr × Wire)}
    (hout : ∀ x ∈ out, x.2.Apart env (w.roomAt r).name) :
    Spared env r w (((w.modifyClient c fun cli => { cli with rooms := cli.rooms.erase s }).emit out).modifyRoom s f) := by
  have hclient : Spared env r w (w.modifyClient c fun cli => { cli with rooms := cli.rooms.erase s }) :=
    .modifyClient c _ (by simp [IterSet.mem_erase, hne])
  exact (hclient.trans (.emit hout)).trans (.modifyRoom hne f)

theorem kickMember (hl : w.membership.Linked) (hne : r ≠ s) (hname : (w.roomAt s).name ≠ (w.roomAt r).name)
    {m : MemberPtr} (hm : m ∈ (w.roomAt s).members) : Spared env r w (Room.kickMember env w s m) := by
  have hhome : (w.memberAt m).room = s := hl.home s m hm
  have hof := ofRoom_append (World.offlineMail_ofRoom hhome)
    (ofRoom_mail (w := w) (d := (w.memberAt m).client) ⟨.leave { target := (w.roomAt s).name }, rfl, rfl⟩)
  rw [Room.kickMember_eq]
  exact .expel hne _ _ fun x hx => (hof x hx).apart hname

end Spared

theorem Move.spared (hw : WF env w) (hlog : w.Logged env) (hr : r ∈ w.rooms) (hS : ¬ S (w.roomAt r).name)
    (h : Move env c w₀ S w w') : Spared env r w w' := by
  have hl := hw.linked
  have hother : ∀ {s}, S (w.roomAt s).name → r ≠ s := by
    rintro s hs rfl
    exact hS hs
  have hne : ∀ {s}, S (w.roomAt s).name → (w.roomAt s).name ≠ (w.roomAt r).name := fun hs he => hS (he ▸ hs)
  cases h with
  | quiet h => exact h.spared hl (hlog.rooms r hr).named hS
  | hang => exact ⟨id, rfl, fun _ _ => rfl, fun _ => Iff.rfl, [], by simp, by simp⟩
  | issue s id hs => exact .issue hl (hother hs) c id
  | enter s id sequenceId loadHistory hs _ hsr =>
    refine (Spared.enter hl (hother hs) c id).trans (.emit ?_)
    have hlog' : Room.Logged env ((w.enter c s id).roomAt s) :=
      (hlog.rooms s hsr).of_sameLog ⟨by simp [World.enter], by simp [World.enter], by simp [World.enter]⟩
    refine World.welcomeMail_apart hlog' (by simp [World.enter]) ?_ sequenceId loadHistory
    simpa [World.enter, hother hs] using hne hs
  | leave s hs hcs =>
    obtain ⟨m, hm⟩ := Room.findMemberByClient_isSome hl hcs
    have hhome := hl.home s m (Room.mem_of_findMemberByClient hm).1
    rw [Client.leaveRoom_eq hcs hm]
    exact .expel (hother hs) _ _ fun x hx => (World.offlineMail_ofRoom hhome x hx).apart (hne hs)
  | kick s m hs hm => exact .kickMember hl (hother hs) (hne hs) hm
  | banKick s m nick hs hm =>
    have hm' : m ∈ (w.roomAt s).members := List.mem_of_find?_eq_some hm
    have hf := Frame.modifyRoom w s (fun rm => { rm with bannedNicks := rm.bannedNicks.insert nick }) rfl rfl
    refine (Spared.modifyRoom (hother hs) _).trans (.kickMember (hf.membership ▸ hl) (hother hs) ?_ ?_)
    · simpa [hother hs] using hne hs
    · simpa using hm'
  | create name hs _ hnone =>
    have hnew : r ≠ ⟨w.nextRoom⟩ := by
      rintro rfl
      exact Nat.lt_irrefl _ (hl.built _ hr)
    refine Spared.trans ?_ (.modifyRoom hnew _)
    refine ⟨fun hr => IterSet.mem_insert.mpr (.inr hr), ?_, fun _ _ => rfl, fun _ => Iff.rfl, [], by simp [World.found], by simp⟩
    simp [World.found, hnew]
  | raze s name hs hsome =>
    obtain ⟨info, out, hout, he⟩ := Server.removeRoom_eq env hl hsome
    obtain ⟨-, hsname⟩ := Server.mem_of_getRoomByName hsome
    have hrs : r ≠ s := hother (hsname.symm ▸ hs)
    rw [he]
    refine ⟨fun hr => IterSet.mem_erase.mpr ⟨hrs, hr⟩, ?_, fun _ _ => rfl, fun d => ?_, out, rfl, fun x hx => ?_⟩
    · simp [hrs]
    · dsimp only
      split <;> simp [IterSet.mem_erase, hrs]
    · have hname : (w.roomAt s).name ≠ (w.roomAt r).name := fun he => hS (he ▸ hsname ▸ hs)
      rcases hout x hx with ⟨m, hm, hp⟩ | hp
      · rw [hp]
        exact (PacketStatus.ofMember_ofRoom (hl.home s m hm) _).apart hname
      · rw [hp]
        exact hname
  | revive t k p hall => exact absurd (hall _) hS

theorem World.Logged.steps (h : w.Logged env) (hw : WF env w) (hs : Seated w) (hsteps : Steps env c w₀ S w w') :
    w'.Logged env :=
  (steps_preserve_under (Q := fun w => Seated w ∧ w.Logged env) (fun _ _ hw hm => hw.move hm)
    (fun _ _ hw h hm => ⟨h.1.move hw hm, h.2.move hw h.1 hm⟩) hsteps hw ⟨hs, h⟩).2

theorem Steps.spared (hw : WF env w) (hs : Seated w) (hlog : w.Logged env) (hr : r ∈ w.rooms)
    (hS : ¬ S (w.roomAt r).name) (h : Steps env c w₀ S w w') : Spared env r w w' := by
  induction h with
  | refl => exact .refl w
  | tail hsteps hmove ih =>
    have hS' := ih.room.symm ▸ hS
    exact ih.trans (hmove.spared (hw.steps hsteps) (hlog.steps hw hs hsteps) (ih.listed hr) hS')

/-- The packets that are about the room they name. -/
def Packet.Local : Packet → Prop
  | .message _ | .onlineList _ | .join _ | .leave _ | .createRoom _ | .removeRoom _ => True
  | .status p => p.status = .typing ∨ p.status = .stopTyping
  | _ => False

theorem Packet.Local.scope {p : Packet} (h : p.Local) : p.Scope (· = p.target) := by
  cases p with
  | status p =>
    have hpresence : ¬ (p.status = .away ∨ p.status = .back) := by
      rcases h with h | h <;> simp [h]
    exact (if_neg hpresence).mpr rfl
  | error | system | auth | ping => exact h.elim
  | _ => rfl

end

/-- In every run a packet about one room keeps every other room, its members and who is in it,
and nothing is sent about the other room. -/
theorem run_rooms_isolated (env : Env) (es : List Event) (sv : AuthServices) (k : ConnectionPtr) (obj : Json)
    (p : Packet) (hp : Packet.read env.unset obj = .ok (some p)) (hlocal : p.Local) :
    let w := run env es
    let w' := Server.onMessage env sv w k (some obj)
    ∀ r ∈ w.rooms, (w.roomAt r).name ≠ p.target →
      r ∈ w'.rooms ∧ w'.roomAt r = w.roomAt r ∧
        (∀ m ∈ (w.roomAt r).members, w'.memberAt m = w.memberAt m) ∧
        (∀ d, r ∈ (w'.clientAt d).rooms ↔ r ∈ (w.clientAt d).rooms) ∧
        ∃ out, w'.sent = w.sent ++ out ∧ ∀ x ∈ out, x.2.Apart env (w.roomAt r).name := by
  intro w w' r hr hne
  have hw : WF env w := wf_run env es
  have hspared : Spared env r w w' := by
    cases hc : findClientByConnection w k with
    | none =>
      have he : w' = w := by
        change Server.onMessage env sv w k (some obj) = w
        simp only [Server.onMessage, hc]
      rw [he]
      exact .refl w
    | some c =>
      obtain ⟨hcl, hk⟩ := ClientsManager.findClientByConnection_spec hw hc
      have htouch : Steps env c w (· = p.target) w (w.modifyClient c fun cli => { cli with lastPacketTime := w.now }) :=
        Deeds.steps (touch_deeds _ _ _ rfl)
      have hcalm : Calm w (w.modifyClient c fun cli => { cli with lastPacketTime := w.now }) :=
        (Calm.refl w).touch _ rfl rfl
      have hk' : ((w.modifyClient c fun cli => { cli with lastPacketTime := w.now }).clientAt c).connection =
          some k := by simpa using hk
      have hsteps := htouch.trans (Packet.process_steps (hw.steps htouch) hcalm hcl hk' sv p hlocal.scope)
      rw [← Server.onMessage_read hc hp sv] at hsteps
      exact Steps.spared hw (seated_run env es) (logged_run env es) hr hne hsteps
  exact ⟨hspared.listed hr, hspared.room, hspared.member, hspared.joined, hspared.sent⟩

def Sample.hall (type : Int) : Json := .obj [(utf8 "type", .int type), (utf8 "target", .str (utf8 "#hall"))]

def Sample.rooms : List Event := room ++ [sends 7 1 (hall 8), sends 8 1 (hall 6)]

theorem run_rooms_isolated_removed :
    let w := run Sample.surroundings Sample.rooms
    let w' := Server.onMessage Sample.surroundings Sample.bob w ⟨1⟩ (some (Sample.hall 9))
    w.rooms.elems = [⟨0⟩, ⟨1⟩] ∧ w'.rooms.elems = [⟨0⟩] ∧ w'.roomAt ⟨0⟩ = w.roomAt ⟨0⟩ ∧
      (w'.roomAt ⟨0⟩).members.elems = [⟨0⟩, ⟨1⟩] := by
  intro w w'
  have h := run_rooms_isolated Sample.surroundings Sample.rooms Sample.bob ⟨1⟩ (Sample.hall 9)
    (.removeRoom { target := utf8 "#hall" }) (by rfl) trivial ⟨0⟩ (by decide +kernel) (by decide +kernel)
  exact ⟨by decide +kernel, by decide +kernel, h.2.1, by decide +kernel⟩

end WsChat
